import Posl.Proofs.Catalog

/-!
# Chronicles of registrations

A chronicle keeps beside a workspace what was put into the registry and when it was
made.  Where all of it was made since the table was last started over, the session is
a catalog of what was put in, whatever else was done before or in between.
-/

namespace Posl

/-! ## The standard built-ins, one after the other -/

namespace StandardBuiltin

/-- Built-ins made for their names in turn, and the table that has the names. -/
def makeAll (table : SymbolTable) : List StandardBuiltin → List Builtin × SymbolTable
  | [] => ([], table)
  | builtin :: builtins =>
    let (made, table) := Builtin.standard table builtin
    let (others, table) := makeAll table builtins
    (made :: others, table)

/-- Making the standard built-ins and putting them in can be done one after the other, as
making looks at the table only. -/
theorem foldl_insertStandard (builtins : List StandardBuiltin) (state : Registry × SymbolTable) :
    builtins.foldl Registry.insertStandard state =
      ((makeAll state.2 builtins).1.foldl Registry.insert state.1,
        (makeAll state.2 builtins).2) := by
  induction builtins generalizing state with
  | nil => rfl
  | cons builtin builtins ih => exact ih (Registry.insertStandard state builtin)

/-- The standard registry is that of a log, so what holds of logs holds of it. -/
theorem standard_eq (table : SymbolTable) :
    Registry.standard table = (Registry.ofLog (makeAll table all).1, (makeAll table all).2) :=
  foldl_insertStandard all (∅, table)

theorem map_name_makeAll (table : SymbolTable) (builtins : List StandardBuiltin) :
    (makeAll table builtins).1.map (·.name) = builtins.map (·.name) := by
  induction builtins generalizing table with
  | nil => rfl
  | cons builtin builtins ih => exact congrArg (builtin.name :: ·) (ih _)

theorem extends_makeAll (table : SymbolTable) (builtins : List StandardBuiltin) :
    (makeAll table builtins).2.Extends table := by
  have hextends := Registry.extends_foldl builtins (∅, table)
  rwa [foldl_insertStandard] at hextends

/-- Built-ins made later extend the table, so each of them has the code of its name at the
end. -/
theorem isCurrent_of_mem_makeAll {table : SymbolTable} {builtins : List StandardBuiltin}
    {builtin : Builtin} (hmem : builtin ∈ (makeAll table builtins).1) :
    builtin.IsCurrent (makeAll table builtins).2 := by
  induction builtins generalizing table with
  | nil => exact absurd hmem List.not_mem_nil
  | cons first builtins ih =>
      rcases List.mem_cons.mp hmem with rfl | hmem
      · exact extends_makeAll _ builtins _ _ (Builtin.isCurrent_make table first.name first.answer?)
      · exact ih hmem

end StandardBuiltin

namespace Workspace

variable {workspace : Workspace} {place : Nat}

/-- An adapter with a built-in puts it into the registry and changes nothing else. -/
theorem step_register_of_some {builtin : Builtin}
    (hbuiltin : workspace.adapters[place]?.bind (·.builtin?) = some builtin) :
    workspace.step (.register place) =
      { workspace with
        session :=
          { workspace.session with registry := workspace.session.registry.insert builtin } } := by
  obtain ⟨adapter, hplace, hadapter⟩ := Option.bind_eq_some_iff.mp hbuiltin
  simp only [step, hplace, registerAdapter, Registry.register, hadapter]

theorem step_register_of_none (hbuiltin : workspace.adapters[place]?.bind (·.builtin?) = none) :
    workspace.step (.register place) = workspace := by
  cases hplace : workspace.adapters[place]? with
  | none => simp only [step, hplace]
  | some adapter =>
      rw [hplace, Option.bind_some] at hbuiltin
      simp only [step, hplace, registerAdapter, Registry.register, hbuiltin]

end Workspace

/-! ## Chronicles -/

/-- A workspace with the history of its registry.  An epoch is the time between two
starts of the table. -/
structure Chronicle where
  workspace : Workspace
  /-- The number of times that the table was started over. -/
  epoch : Nat
  /-- The adapters made, with their epochs. -/
  made : List (Nat × Adapter)
  /-- The built-ins put into the registry since it was last started over, with the
  epochs in which they were made. -/
  log : List (Nat × Builtin)

namespace Chronicle

def empty : Chronicle := { workspace := ∅, epoch := 0, made := [], log := [] }

instance : EmptyCollection Chronicle := ⟨empty⟩

/-- The built-in of the adapter at a place, with its epoch. -/
def entry? (chronicle : Chronicle) (place : Nat) : Option (Nat × Builtin) :=
  chronicle.made[place]?.bind fun made => made.2.builtin?.map (made.1, ·)

def step (chronicle : Chronicle) (step : Workspace.Step) : Chronicle :=
  let workspace := chronicle.workspace.step step
  let table := chronicle.workspace.session.table
  match step with
  | .intern _ => { chronicle with workspace }
  | .resetTable => { chronicle with workspace, epoch := chronicle.epoch + 1 }
  | .clearRegistry => { chronicle with workspace, log := [] }
  | .useStandard =>
    let builtins := (StandardBuiltin.makeAll table StandardBuiltin.all).1
    { chronicle with workspace, log := builtins.map (chronicle.epoch, ·) }
  | .make source =>
    { chronicle with
      workspace
      made := chronicle.made ++ [(chronicle.epoch, (source.make table).1)] }
  | .register place =>
    { chronicle with workspace, log := chronicle.log ++ (chronicle.entry? place).toList }

def run (chronicle : Chronicle) (steps : List Workspace.Step) : Chronicle :=
  steps.foldl step chronicle

/-- Whether the table was not started over since the first built-in of the registry
was made. -/
def Undisturbed (chronicle : Chronicle) : Prop :=
  ∀ entry ∈ chronicle.log, entry.1 = chronicle.epoch

/-- The last built-in that was put in for each name. -/
def catalog (chronicle : Chronicle) : Catalog := .ofLog (chronicle.log.map (·.2))

/-- What a chronicle keeps beside its workspace has no effect on the workspace. -/
@[simp]
theorem workspace_step (chronicle : Chronicle) (step : Workspace.Step) :
    (chronicle.step step).workspace = chronicle.workspace.step step := by
  cases step <;> rfl

theorem run_concat (chronicle : Chronicle) (steps : List Workspace.Step)
    (step : Workspace.Step) :
    chronicle.run (steps ++ [step]) = (chronicle.run steps).step step := by
  rw [run, List.foldl_append]
  rfl

theorem workspace_run (chronicle : Chronicle) (steps : List Workspace.Step) :
    (chronicle.run steps).workspace = chronicle.workspace.run steps := by
  induction steps generalizing chronicle with
  | nil => rfl
  | cons step steps ih =>
      rw [run, List.foldl_cons, ← run, ih, workspace_step]
      rfl

/-! ## What a chronicle says -/

/-- Whether a built-in is from the epoch it is said to be from: one of the present
epoch has the code of its name. -/
def Dated (epoch : Nat) (table : SymbolTable) (entry : Nat × Builtin) : Prop :=
  entry.1 ≤ epoch ∧ (entry.1 = epoch → entry.2.IsCurrent table)

theorem Dated.extend {epoch : Nat} {table later : SymbolTable} {entry : Nat × Builtin}
    (hdated : Dated epoch table entry) (hextends : later.Extends table) :
    Dated epoch later entry :=
  ⟨hdated.1, fun heq => hextends _ _ (hdated.2 heq)⟩

/-- No built-in is from an epoch that is only beginning. -/
theorem Dated.next {epoch : Nat} {table : SymbolTable} {entry : Nat × Builtin}
    (hdated : Dated epoch table entry) (later : SymbolTable) : Dated (epoch + 1) later entry :=
  ⟨Nat.le_succ_of_le hdated.1, fun heq => absurd heq (Nat.ne_of_lt (Nat.lt_succ_of_le hdated.1))⟩

/-- Whether the history is the one of the workspace. -/
structure Consistent (chronicle : Chronicle) : Prop where
  made_eq : chronicle.made.map (·.2) = chronicle.workspace.adapters
  registry_eq : chronicle.workspace.session.registry = .ofLog (chronicle.log.map (·.2))
  made_dated : ∀ made ∈ chronicle.made, ∀ builtin, made.2.builtin? = some builtin →
    Dated chronicle.epoch chronicle.workspace.session.table (made.1, builtin)
  log_dated : ∀ entry ∈ chronicle.log,
    Dated chronicle.epoch chronicle.workspace.session.table entry

theorem consistent_empty : Consistent ∅ where
  made_eq := rfl
  registry_eq := rfl
  made_dated := fun _ hmade => absurd hmade List.not_mem_nil
  log_dated := fun _ hentry => absurd hentry List.not_mem_nil

namespace Consistent

variable {chronicle : Chronicle}

theorem adapters_eq (hconsistent : chronicle.Consistent) (place : Nat) :
    chronicle.workspace.adapters[place]? = chronicle.made[place]?.map (·.2) := by
  rw [← hconsistent.made_eq, List.getElem?_map]

/-- The entry at a place has the built-in of the adapter there. -/
theorem builtin_entry? (hconsistent : chronicle.Consistent) (place : Nat) :
    chronicle.workspace.adapters[place]?.bind (·.builtin?) =
      (chronicle.entry? place).map (·.2) := by
  rw [hconsistent.adapters_eq, entry?]
  cases chronicle.made[place]? with
  | none => rfl
  | some made => cases hbuiltin : made.2.builtin? <;> simp [hbuiltin]

/-- What an adapter holds was made in the epoch that is noted for it. -/
theorem entry?_dated (hconsistent : chronicle.Consistent) {place : Nat} {entry : Nat × Builtin}
    (hentry : chronicle.entry? place = some entry) :
    Dated chronicle.epoch chronicle.workspace.session.table entry := by
  obtain ⟨made, hmade, hfound⟩ := Option.bind_eq_some_iff.mp hentry
  obtain ⟨builtin, hbuiltin, rfl⟩ := Option.map_eq_some_iff.mp hfound
  exact hconsistent.made_dated made (List.mem_of_getElem? hmade) builtin hbuiltin

/-- A table that grows takes no built-in out of step with its name. -/
theorem extend (hconsistent : chronicle.Consistent) {later : SymbolTable}
    (hextends : later.Extends chronicle.workspace.session.table) :
    Consistent
      { chronicle with
        workspace :=
          { chronicle.workspace with
            session := { chronicle.workspace.session with table := later } } } where
  made_eq := hconsistent.made_eq
  registry_eq := hconsistent.registry_eq
  made_dated := fun made hmade builtin hbuiltin =>
    (hconsistent.made_dated made hmade builtin hbuiltin).extend hextends
  log_dated := fun entry hentry => (hconsistent.log_dated entry hentry).extend hextends

/-- A reset starts an epoch of its own, in which nothing was made so far. -/
theorem resetTable (hconsistent : chronicle.Consistent) :
    (chronicle.step .resetTable).Consistent where
  made_eq := hconsistent.made_eq
  registry_eq := hconsistent.registry_eq
  made_dated := fun made hmade builtin hbuiltin =>
    (hconsistent.made_dated made hmade builtin hbuiltin).next ∅
  log_dated := fun entry hentry => (hconsistent.log_dated entry hentry).next ∅

/-- A registry that is started over with built-ins made just now. -/
theorem restock (hconsistent : chronicle.Consistent) {later : SymbolTable}
    (hextends : later.Extends chronicle.workspace.session.table) {builtins : List Builtin}
    (hbuiltins : ∀ builtin ∈ builtins, builtin.IsCurrent later) :
    Consistent
      { chronicle with
        workspace :=
          { chronicle.workspace with session := { table := later, registry := .ofLog builtins } }
        log := builtins.map (chronicle.epoch, ·) } where
  made_eq := hconsistent.made_eq
  registry_eq := by rw [List.map_map, Function.comp_def, List.map_id']
  made_dated := (hconsistent.extend hextends).made_dated
  log_dated := by
    intro entry hentry
    obtain ⟨builtin, hmem, rfl⟩ := List.mem_map.mp hentry
    exact ⟨Nat.le_refl _, fun _ => hbuiltins builtin hmem⟩

theorem useStandard (hconsistent : chronicle.Consistent) :
    (chronicle.step .useStandard).Consistent := by
  rw [Chronicle.step, Workspace.step_useStandard, StandardBuiltin.standard_eq]
  dsimp only
  exact hconsistent.restock (StandardBuiltin.extends_makeAll _ _)
    fun _ => StandardBuiltin.isCurrent_of_mem_makeAll

theorem make (hconsistent : chronicle.Consistent) (source : AdapterSource) :
    (chronicle.step (.make source)).Consistent := by
  have hextended := hconsistent.extend (source.extends_make chronicle.workspace.session.table)
  refine ⟨?_, hextended.registry_eq, ?_, hextended.log_dated⟩
  · exact (List.map_append ..).trans (congrArg (· ++ _) hconsistent.made_eq)
  · intro made hmade builtin hbuiltin
    rcases List.mem_append.mp hmade with hold | hnew
    · exact hextended.made_dated made hold builtin hbuiltin
    · obtain rfl := List.mem_singleton.mp hnew
      exact ⟨Nat.le_refl _, fun _ => AdapterSource.isCurrent_make hbuiltin⟩

theorem register (hconsistent : chronicle.Consistent) (place : Nat) :
    (chronicle.step (.register place)).Consistent := by
  have hbuiltin := hconsistent.builtin_entry? place
  cases hentry : chronicle.entry? place with
  | none =>
      rw [hentry, Option.map_none] at hbuiltin
      have hstep : chronicle.step (.register place) = chronicle := by
        simp [step, Workspace.step_register_of_none hbuiltin, hentry]
      rwa [hstep]
  | some entry =>
      rw [hentry, Option.map_some] at hbuiltin
      have hstep := Workspace.step_register_of_some hbuiltin
      refine ⟨?_, ?_, ?_, ?_⟩
      · rw [workspace_step, hstep]
        exact hconsistent.made_eq
      · rw [workspace_step, hstep]
        simp [step, hentry, Registry.ofLog, hconsistent.registry_eq]
      · rw [workspace_step, hstep]
        exact hconsistent.made_dated
      · intro other hother
        rw [workspace_step, hstep]
        simp only [step, hentry, Option.toList_some] at hother
        rcases List.mem_append.mp hother with hold | hnew
        · exact hconsistent.log_dated other hold
        · obtain rfl := List.mem_singleton.mp hnew
          exact hconsistent.entry?_dated hentry

theorem step (hconsistent : chronicle.Consistent) (step : Workspace.Step) :
    (chronicle.step step).Consistent := by
  cases step with
  | intern name =>
      exact hconsistent.extend (chronicle.workspace.session.table.extends_intern name)
  | resetTable => exact hconsistent.resetTable
  | clearRegistry => exact hconsistent.restock (.refl _) (List.forall_mem_nil _)
  | useStandard => exact hconsistent.useStandard
  | make source => exact hconsistent.make source
  | register place => exact hconsistent.register place

/-- A history that starts as that of its workspace stays it through every run. -/
theorem run (hconsistent : chronicle.Consistent) (steps : List Workspace.Step) :
    (chronicle.run steps).Consistent := by
  induction steps generalizing chronicle with
  | nil => exact hconsistent
  | cons step steps ih => exact ih (hconsistent.step step)

/-- Without a reset since its first built-in was made, a registry holds current built-ins
only, and mirrors its catalog. -/
theorem mirrors (hconsistent : chronicle.Consistent) (hundisturbed : chronicle.Undisturbed)
    {names : List String} (hlists : chronicle.workspace.session.table.Lists names)
    (hsize : chronicle.workspace.session.table.size ≤ SymbolTable.capacity) :
    chronicle.workspace.session.registry.Mirrors chronicle.workspace.session.table
      chronicle.catalog := by
  rw [hconsistent.registry_eq]
  refine .ofLog hlists hsize fun builtin hmem => ?_
  obtain ⟨entry, hentry, rfl⟩ := List.mem_map.mp hmem
  exact (hconsistent.log_dated entry hentry).2 (hundisturbed entry hentry)

end Consistent

/-! ## Refinement -/

/-- What registering the adapter at a place does: the built-in is put into the catalog,
and the one that had its name is handed back.  An adapter without a built-in is
refused. -/
structure Registers (chronicle : Chronicle) (place : Nat) (adapter : Adapter) : Prop where
  configured : ∀ builtin, adapter.builtin? = some builtin →
    chronicle.workspace.session.registry.register adapter =
      .ok (chronicle.catalog[builtin.name]?,
        (chronicle.step (.register place)).workspace.session.registry) ∧
    (chronicle.step (.register place)).catalog = chronicle.catalog.add builtin
  unconfigured : adapter.builtin? = none →
    chronicle.workspace.session.registry.register adapter = .error .unconfiguredRegistration ∧
    chronicle.step (.register place) = chronicle

section Refinement

variable {chronicle : Chronicle}

theorem log_step_register {place : Nat} {entry : Nat × Builtin}
    (hentry : chronicle.entry? place = some entry) :
    (chronicle.step (.register place)).log = chronicle.log ++ [entry] := by
  rw [step, hentry, Option.toList_some]

theorem step_register_of_none (hconsistent : chronicle.Consistent) {place : Nat}
    (hentry : chronicle.entry? place = none) : chronicle.step (.register place) = chronicle := by
  have hbuiltin := hconsistent.builtin_entry? place
  rw [hentry, Option.map_none] at hbuiltin
  rw [step, Workspace.step_register_of_none hbuiltin, hentry, Option.toList_none, List.append_nil]

/-- Registering hands back what the catalog had for the name. -/
theorem registers (hconsistent : chronicle.Consistent) {names : List String}
    (hlists : chronicle.workspace.session.table.Lists names)
    (hsize : chronicle.workspace.session.table.size ≤ SymbolTable.capacity) {place : Nat}
    {adapter : Adapter} (hplace : chronicle.workspace.adapters[place]? = some adapter)
    (hundisturbed : (chronicle.step (.register place)).Undisturbed) :
    chronicle.Registers place adapter := by
  have hbuiltin := hconsistent.builtin_entry? place
  rw [hplace, Option.bind_some] at hbuiltin
  constructor
  · intro builtin hconfigured
    rw [hconfigured] at hbuiltin
    obtain ⟨entry, hentry, rfl⟩ := Option.map_eq_some_iff.mp hbuiltin.symm
    have hlog := log_step_register hentry
    rw [Undisturbed, hlog, List.forall_mem_append, List.forall_mem_singleton] at hundisturbed
    obtain ⟨hbefore, hnow⟩ := hundisturbed
    have hcurrent : entry.2.IsCurrent chronicle.workspace.session.table :=
      (hconsistent.entry?_dated hentry).2 hnow
    have hreplaced := (hconsistent.mirrors hbefore hlists hsize).get?_symbol hcurrent
    have hstep : chronicle.workspace.adapters[place]?.bind (·.builtin?) = some entry.2 := by
      rw [hplace, Option.bind_some, hconfigured]
    constructor
    · rw [workspace_step, Workspace.step_register_of_some hstep, Registry.register, hconfigured]
      exact congrArg (fun replaced => Except.ok (replaced, _)) hreplaced
    · rw [catalog, hlog, List.map_append, List.map_singleton]
      exact Catalog.ofLog_concat ..
  · intro hunconfigured
    rw [hunconfigured] at hbuiltin
    exact ⟨by rw [Registry.register, hunconfigured],
      step_register_of_none hconsistent (Option.map_eq_none_iff.mp hbuiltin.symm)⟩

theorem log_step_useStandard (chronicle : Chronicle) :
    (chronicle.step .useStandard).log =
      (StandardBuiltin.makeAll chronicle.workspace.session.table StandardBuiltin.all).1.map
        (chronicle.epoch, ·) := by
  rw [step]

theorem undisturbed_useStandard (chronicle : Chronicle) :
    (chronicle.step .useStandard).Undisturbed := by
  have hepoch : (chronicle.step .useStandard).epoch = chronicle.epoch := by rw [step]
  rw [Undisturbed, log_step_useStandard, hepoch, List.forall_mem_map]
  exact fun _ _ => rfl

theorem catalog_useStandard (chronicle : Chronicle) :
    (chronicle.step .useStandard).catalog =
      .ofLog (StandardBuiltin.makeAll chronicle.workspace.session.table StandardBuiltin.all).1 := by
  rw [catalog, log_step_useStandard, List.map_map, Function.comp_def, List.map_id']

/-- Starting over with the standard built-ins makes the registry mirror their catalog. -/
theorem mirrors_useStandard (hconsistent : chronicle.Consistent) {names : List String}
    (hlists : chronicle.workspace.session.table.Lists names)
    (hsize : (Registry.standard chronicle.workspace.session.table).2.size ≤
      SymbolTable.capacity) :
    (Registry.standard chronicle.workspace.session.table).1.Mirrors
      (Registry.standard chronicle.workspace.session.table).2
      (chronicle.step .useStandard).catalog := by
  have hlater := Registry.lists_standard hlists
  rw [← Workspace.table_step_useStandard, ← workspace_step] at hlater hsize ⊢
  rw [← Workspace.registry_step_useStandard, ← workspace_step]
  exact hconsistent.useStandard.mirrors chronicle.undisturbed_useStandard hlater hsize

/-- The catalog of a standard registry has the seven standard names and answers to them as
the built-ins do. -/
theorem isStandard_useStandard (hconsistent : chronicle.Consistent) {names : List String}
    (hlists : chronicle.workspace.session.table.Lists names)
    (hsize : (Registry.standard chronicle.workspace.session.table).2.size ≤
      SymbolTable.capacity) : (chronicle.step .useStandard).catalog.IsStandard where
  answer?_eq := by
    intro name
    rw [← (mirrors_useStandard hconsistent hlists hsize).builtinFor?_eq]
    exact Registry.builtinFor?_standard hlists hsize name
  size_eq := by
    have hnames : ((StandardBuiltin.makeAll chronicle.workspace.session.table
        StandardBuiltin.all).1.map (·.name)) = StandardBuiltin.all.map (·.name) :=
      StandardBuiltin.map_name_makeAll _ _
    have hlength := congrArg List.length hnames
    rw [List.length_map, List.length_map] at hlength
    rw [catalog_useStandard, Catalog.size_ofLog, hlength]
    · rfl
    · rw [hnames]
      decide

end Refinement

/-- While the table has not been started over since the first built-in of the registry
was made, and codes suffice, the registry is the map from names to the built-ins put in
last, and registering changes that map.  Starting over with the standard built-ins
gives their map. -/
theorem registry_refines_catalog (steps : List Workspace.Step) :
    ((run ∅ steps).Undisturbed →
      (Workspace.run ∅ steps).session.table.size ≤ SymbolTable.capacity →
      (Workspace.run ∅ steps).session.Refines (run ∅ steps).catalog ∧
      ∀ place adapter, (Workspace.run ∅ steps).adapters[place]? = some adapter →
        ((run ∅ steps).step (.register place)).Undisturbed →
        (run ∅ steps).Registers place adapter) ∧
    ((Workspace.run ∅ (steps ++ [.useStandard])).session.table.size ≤ SymbolTable.capacity →
      (Workspace.run ∅ (steps ++ [.useStandard])).session.Refines
        (run ∅ (steps ++ [.useStandard])).catalog ∧
      (run ∅ (steps ++ [.useStandard])).catalog.IsStandard) := by
  have hconsistent : (run ∅ steps).Consistent := consistent_empty.run steps
  have hworkspace : (run ∅ steps).workspace = Workspace.run ∅ steps := workspace_run ∅ steps
  obtain ⟨names, hlists⟩ := Workspace.exists_lists_run steps
  rw [Workspace.run_concat, run_concat, ← hworkspace] at *
  constructor
  · intro hundisturbed hsize
    exact ⟨(hconsistent.mirrors hundisturbed hlists hsize).refines hlists hsize,
      fun place adapter => registers hconsistent hlists hsize⟩
  · intro hsize
    rw [Workspace.table_step_useStandard] at hsize
    rw [Workspace.step_useStandard]
    exact ⟨(mirrors_useStandard hconsistent hlists hsize).refines
      (Registry.lists_standard hlists) hsize, isStandard_useStandard hconsistent hlists hsize⟩

/-- A built-in is made after the table was started over, and is put in again. -/
theorem registry_refines_catalog_custom :
    let steps : List Workspace.Step :=
      [.intern "q", .resetTable, .make (.custom "p" fun _ => none), .register 0]
    let builtin := (Builtin.make ∅ "p" fun _ => none).1
    (Workspace.run ∅ steps).session.registry.size = 1 ∧
      (Workspace.run ∅ steps).session.call { atoms := [.call "p" []], variableNames := [] } 0 =
        .ok .fails ∧
      ((Workspace.run ∅ steps).session.registry.register { builtin? := builtin }).map (·.1) =
        .ok (some builtin) ∧
      (Workspace.run ∅ (steps ++ [.useStandard])).session.registry.size = 7 := by
  intro steps builtin
  have hlists : (Workspace.run ∅ steps).session.table.Lists ["p"] :=
    SymbolTable.lists_empty.intern "p"
  have hsize : (Workspace.run ∅ steps).session.table.size ≤ SymbolTable.capacity := by
    rw [hlists.size_eq]
    decide
  have hlater : (Workspace.run ∅ (steps ++ [.useStandard])).session.table.size ≤
      SymbolTable.capacity := by
    rw [Workspace.run_concat, Workspace.table_step_useStandard,
      (Registry.lists_standard hlists).size_eq]
    decide +kernel
  have hundisturbed : (run ∅ steps).Undisturbed := by
    intro entry hentry
    obtain rfl := List.mem_singleton.mp hentry
    rfl
  have hagain : ((run ∅ steps).step (.register 0)).Undisturbed := by
    rw [Undisturbed, log_step_register rfl]
    exact List.forall_mem_append.mpr ⟨hundisturbed, List.forall_mem_singleton.mpr rfl⟩
  have hcatalog : (run ∅ steps).catalog = .ofLog [builtin] := rfl
  have hnodup : ([builtin].map (·.name)).Nodup := List.pairwise_singleton _ _
  have hname : (Catalog.ofLog [builtin])["p"]? = some builtin :=
    (Catalog.getElem?_add ∅ builtin "p").trans (if_pos rfl)
  obtain ⟨hnow, hstandard⟩ := registry_refines_catalog steps
  obtain ⟨hrefines, hregisters⟩ := hnow hundisturbed hsize
  obtain ⟨hlaterRefines, hseven⟩ := hstandard hlater
  rw [hcatalog] at hrefines
  refine ⟨?_, ?_, ?_, hlaterRefines.size_eq.trans hseven.size_eq⟩
  · rw [hrefines.size_eq, Catalog.size_ofLog hnodup, List.length_singleton]
  · have hcalled : (Term.call "p" []).symbolName?.bind ((Catalog.ofLog [builtin])[·]?) =
        some builtin := hname
    rw [hrefines.call_eq, Catalog.call, List.getElem?_cons_zero]
    simp only [hcalled]
    rfl
  · have hregistered := ((hregisters 0 { builtin? := builtin } rfl hagain).configured builtin rfl).1
    exact (congrArg (Except.map (·.1)) hregistered).trans (congrArg Except.ok hname)

end Chronicle

end Posl
