import Posl.Proofs.Workspace

/-!
# Registries as maps from names

A registry keeps built-ins by code, and the codes are those of one table.  While the
table is not started over, a registry is as good as a map from names to built-ins
that was given the same built-ins in the same order.
-/

namespace Posl

/-! ## Catalogs -/

/-- Built-ins by the names that they were made for. -/
abbrev Catalog := Std.HashMap String Builtin

namespace Catalog

def add (catalog : Catalog) (builtin : Builtin) : Catalog := catalog.insert builtin.name builtin

/-- The last built-in of each name among those put in one after the other. -/
def ofLog (log : List Builtin) : Catalog := log.foldl add ∅

def call (catalog : Catalog) (clause : Clause) (index : Nat) : Except BuiltinError CallResult :=
  match clause.atoms[index]? with
  | none => .error (.indexOutOfRange index clause.atoms.length)
  | some atom =>
    match atom.symbolName?.bind (catalog[·]?) with
    | none => .ok .notBuiltin
    | some builtin => .ok (.ofAnswer (builtin.answer? atom))

theorem ofLog_concat (log : List Builtin) (builtin : Builtin) :
    ofLog (log ++ [builtin]) = (ofLog log).add builtin := by
  rw [ofLog, List.foldl_append]
  rfl

/-- A built-in is found under its own name, and takes the place of an earlier one of that
name. -/
theorem getElem?_add (catalog : Catalog) (builtin : Builtin) (name : String) :
    (catalog.add builtin)[name]? =
      if builtin.name = name then some builtin else catalog[name]? := by
  simp only [add, Std.HashMap.getElem?_insert, beq_iff_eq]

theorem size_add (catalog : Catalog) (builtin : Builtin) :
    (catalog.add builtin).size =
      if catalog.contains builtin.name then catalog.size else catalog.size + 1 :=
  Std.HashMap.size_insert

theorem mem_iff {catalog : Catalog} {name : String} :
    name ∈ catalog ↔ ∃ builtin, catalog[name]? = some builtin := by
  rw [Std.HashMap.mem_iff_isSome_getElem?, Option.isSome_iff_exists]

theorem contains_add (catalog : Catalog) (builtin : Builtin) (name : String) :
    (catalog.add builtin).contains name = (builtin.name == name || catalog.contains name) :=
  Std.HashMap.contains_insert

theorem size_foldl {catalog : Catalog} {log : List Builtin} (hnodup : (log.map (·.name)).Nodup)
    (hnew : ∀ builtin ∈ log, catalog.contains builtin.name = false) :
    (log.foldl add catalog).size = catalog.size + log.length := by
  induction log generalizing catalog with
  | nil => rfl
  | cons builtin log ih =>
      obtain ⟨hdistinct, hnodup⟩ := List.nodup_cons.mp hnodup
      obtain ⟨hfirst, hnew⟩ := List.forall_mem_cons.mp hnew
      have hothers : ∀ other ∈ log, (catalog.add builtin).contains other.name = false := by
        intro other hmem
        have hne : builtin.name ≠ other.name := fun heq =>
          hdistinct (List.mem_map.mpr ⟨other, hmem, heq.symm⟩)
        rw [contains_add, hnew other hmem, beq_false_of_ne hne, Bool.or_false]
      rw [List.foldl_cons, ih hnodup hothers, size_add, hfirst, List.length_cons]
      simp only [Bool.false_eq_true, if_false]
      omega

theorem size_ofLog {log : List Builtin} (hnodup : (log.map (·.name)).Nodup) :
    (ofLog log).size = log.length := by
  rw [ofLog, size_foldl hnodup fun _ _ => Std.HashMap.contains_empty]
  exact Nat.zero_add _

/-- A catalog of the standard built-ins and no others. -/
structure IsStandard (catalog : Catalog) : Prop where
  answer?_eq : ∀ name, catalog[name]?.map (·.answer?) =
    (StandardBuiltin.ofName? name).map (·.answer?)
  size_eq : catalog.size = 7

end Catalog

namespace Registry

variable {registry : Registry} {table : SymbolTable} {names : List String}

/-- The registry that built-ins are put into one after the other. -/
def ofLog (log : List Builtin) : Registry := log.foldl insert ∅

theorem contains_eq (registry : Registry) (id : SymbolId) :
    registry.contains id = (registry.get? id).isSome :=
  Std.TreeMap.contains_eq_isSome_getElem?

theorem size_insert (registry : Registry) (builtin : Builtin) :
    (registry.insert builtin).size =
      if registry.contains builtin.symbol then registry.size else registry.size + 1 :=
  Std.TreeMap.size_insert

theorem mem_symbols_iff {id : SymbolId} :
    id ∈ registry.symbols ↔ ∃ builtin, registry.get? id = some builtin := by
  rw [symbols, Std.TreeMap.mem_keys, Std.TreeMap.mem_iff_isSome_getElem?,
    Option.isSome_iff_exists, get?]

theorem symbols_sorted (registry : Registry) : registry.symbols.Pairwise (· < ·) :=
  (Std.TreeMap.ordered_keys).imp Std.compare_eq_lt.mp

/-- While a name has the code of its built-in, looking up the name finds what stands under
the code. -/
theorem builtinFor?_of_current {builtin : Builtin} (hbuiltin : builtin.IsCurrent table) :
    registry.builtinFor? table builtin.name = registry.get? builtin.symbol := by
  rw [builtinFor?, hbuiltin, Option.bind_some]

/-- Codes tell names apart, so what is put in under the code of one name is found for no
other. -/
theorem builtinFor?_insert (hlists : table.Lists names) (hsize : table.size ≤ SymbolTable.capacity)
    {builtin : Builtin} (hbuiltin : builtin.IsCurrent table) (name : String) :
    (registry.insert builtin).builtinFor? table name =
      if builtin.name = name then some builtin else registry.builtinFor? table name := by
  split
  · next heq =>
      subst heq
      rw [builtinFor?_of_current hbuiltin, get?_insert, if_pos rfl]
  · next hne =>
      cases hid : table.id? name with
      | none => rw [builtinFor?, builtinFor?, hid, Option.bind_none, Option.bind_none]
      | some id =>
          have hcode : builtin.symbol ≠ id := by
            rintro rfl
            exact hne (hlists.eq_of_id? hsize hbuiltin hid)
          rw [builtinFor?, builtinFor?, hid, Option.bind_some, Option.bind_some, get?_insert,
            if_neg hcode]

/-- A registry of built-ins that have the codes of their names, and a catalog that
has the same built-ins for the names. -/
structure Mirrors (registry : Registry) (table : SymbolTable) (catalog : Catalog) : Prop where
  current : registry.CurrentExcept (fun _ => False) table
  builtinFor?_eq : ∀ name, registry.builtinFor? table name = catalog[name]?
  size_eq : registry.size = catalog.size

namespace Mirrors

variable {catalog : Catalog}

theorem empty (table : SymbolTable) : Mirrors ∅ table ∅ where
  current := .empty _ table
  builtinFor?_eq := fun name => by rw [builtinFor?_empty, Std.HashMap.getElem?_empty]
  size_eq := rfl

/-- A registry that mirrors a catalog has under the code of a name what the catalog has for
the name. -/
theorem get?_symbol (hmirrors : registry.Mirrors table catalog) {builtin : Builtin}
    (hbuiltin : builtin.IsCurrent table) :
    registry.get? builtin.symbol = catalog[builtin.name]? := by
  rw [← builtinFor?_of_current hbuiltin, hmirrors.builtinFor?_eq]

section

variable (hlists : table.Lists names) (hsize : table.size ≤ SymbolTable.capacity)

include hlists hsize

/-- Putting a current built-in in keeps the catalog in step: it takes the place of the same
one in both. -/
theorem insert (hmirrors : registry.Mirrors table catalog) {builtin : Builtin}
    (hbuiltin : builtin.IsCurrent table) :
    (registry.insert builtin).Mirrors table (catalog.add builtin) where
  current := hmirrors.current.insert (.inl hbuiltin)
  builtinFor?_eq := by
    intro name
    rw [builtinFor?_insert hlists hsize hbuiltin, Catalog.getElem?_add, hmirrors.builtinFor?_eq]
  size_eq := by
    have hcontains : registry.contains builtin.symbol = catalog.contains builtin.name := by
      rw [contains_eq, hmirrors.get?_symbol hbuiltin, Std.HashMap.contains_eq_isSome_getElem?]
    rw [size_insert, Catalog.size_add, hcontains, hmirrors.size_eq]

theorem foldl (hmirrors : registry.Mirrors table catalog) {log : List Builtin}
    (hlog : ∀ builtin ∈ log, builtin.IsCurrent table) :
    (log.foldl Registry.insert registry).Mirrors table (log.foldl Catalog.add catalog) := by
  induction log generalizing registry catalog with
  | nil => exact hmirrors
  | cons builtin log ih =>
      obtain ⟨hbuiltin, hlog⟩ := List.forall_mem_cons.mp hlog
      exact ih (hmirrors.insert hlists hsize hbuiltin) hlog

/-- A registry and a catalog filled from one log mirror each other. -/
theorem ofLog {log : List Builtin} (hlog : ∀ builtin ∈ log, builtin.IsCurrent table) :
    (Registry.ofLog log).Mirrors table (Catalog.ofLog log) :=
  (empty table).foldl hlists hsize hlog

end

end Mirrors

end Registry

/-! ## Sessions -/

/-- A session whose registry does to its table what a catalog does to names. -/
structure Session.Refines (session : Session) (catalog : Catalog) : Prop where
  size_eq : session.registry.size = catalog.size
  isEmpty_eq : session.registry.isEmpty = catalog.isEmpty
  exists_id : ∀ name ∈ catalog, ∃ id, session.table.id? name = some id
  symbols_sorted : session.registry.symbols.Pairwise (· < ·)
  mem_symbols_iff : ∀ id, id ∈ session.registry.symbols ↔
    ∃ name ∈ catalog, session.table.id? name = some id
  get?_eq : ∀ id, session.registry.get? id = (session.table.name? id).bind (catalog[·]?)
  contains_eq : ∀ id, session.registry.contains id = (session.table.name? id).any catalog.contains
  get?_name : ∀ name, (session.table.id? name).bind session.registry.get? = catalog[name]?
  call_eq : ∀ clause index, session.call clause index = catalog.call clause index

namespace Registry.Mirrors

variable {registry : Registry} {table : SymbolTable} {catalog : Catalog}

theorem isEmpty_eq (hmirrors : registry.Mirrors table catalog) :
    registry.isEmpty = catalog.isEmpty := by
  rw [Registry.isEmpty, Std.TreeMap.isEmpty_eq_size_eq_zero, Std.HashMap.isEmpty_eq_size_eq_zero,
    ← Registry.size, hmirrors.size_eq]

/-- Each name of a catalog that is mirrored has a code. -/
theorem exists_id (hmirrors : registry.Mirrors table catalog) {name : String}
    (hname : name ∈ catalog) : ∃ id, table.id? name = some id := by
  obtain ⟨builtin, hbuiltin⟩ := Catalog.mem_iff.mp hname
  rw [← hmirrors.builtinFor?_eq] at hbuiltin
  obtain ⟨id, hid, -⟩ := Option.bind_eq_some_iff.mp hbuiltin
  exact ⟨id, hid⟩

/-- What stands under a code is what the catalog has for the name of the code. -/
theorem get?_eq_some_iff (hmirrors : registry.Mirrors table catalog) {id : SymbolId}
    {builtin : Builtin} :
    registry.get? id = some builtin ↔
      ∃ name, table.id? name = some id ∧ catalog[name]? = some builtin := by
  simp only [← hmirrors.builtinFor?_eq]
  constructor
  · intro hget
    obtain ⟨hsymbol, hcurrent | hstale⟩ := hmirrors.current id builtin hget
    · rw [Builtin.IsCurrent, hsymbol] at hcurrent
      exact ⟨builtin.name, hcurrent, by rw [builtinFor?, hcurrent, Option.bind_some, hget]⟩
    · exact hstale.elim
  · rintro ⟨name, hid, hbuiltin⟩
    rwa [builtinFor?, hid, Option.bind_some] at hbuiltin

/-- A call asks for a name in either case, and the registry only takes the way over its
code. -/
theorem call_eq (hmirrors : registry.Mirrors table catalog) (clause : Clause) (index : Nat) :
    registry.call table clause index = catalog.call clause index := by
  rw [Registry.call, Clause.atomAt, Catalog.call]
  cases clause.atoms[index]? with
  | none => rfl
  | some atom =>
      have hroute := route?_eq registry table atom
      rw [funext hmirrors.builtinFor?_eq] at hroute
      cases hbuiltin : atom.symbolName?.bind (catalog[·]?) with
      | none =>
          rw [hbuiltin] at hroute
          simp only [Except.map, callAtom_of_route?_none hroute, hbuiltin]
      | some builtin =>
          rw [hbuiltin] at hroute
          simp only [Except.map, callAtom_of_route?_some hroute, hbuiltin]

/-- What stands under a code is what the catalog has for the name of the code. -/
theorem get?_eq (hmirrors : registry.Mirrors table catalog) {names : List String}
    (hlists : table.Lists names) (hsize : table.size ≤ SymbolTable.capacity) (id : SymbolId) :
    registry.get? id = (table.name? id).bind (catalog[·]?) := by
  ext builtin
  simp only [hmirrors.get?_eq_some_iff, Option.bind_eq_some_iff, hlists.name?_eq_some_iff hsize]

/-- All that a session lets be seen of its registry follows from its being mirrored. -/
theorem refines (hmirrors : registry.Mirrors table catalog) {names : List String}
    (hlists : table.Lists names) (hsize : table.size ≤ SymbolTable.capacity) :
    Session.Refines { table, registry } catalog where
  size_eq := hmirrors.size_eq
  isEmpty_eq := hmirrors.isEmpty_eq
  exists_id := fun _ => hmirrors.exists_id
  symbols_sorted := registry.symbols_sorted
  mem_symbols_iff := by
    intro id
    simp only [Registry.mem_symbols_iff, hmirrors.get?_eq_some_iff, Catalog.mem_iff]
    constructor
    · rintro ⟨builtin, name, hid, hbuiltin⟩
      exact ⟨name, ⟨builtin, hbuiltin⟩, hid⟩
    · rintro ⟨name, ⟨builtin, hbuiltin⟩, hid⟩
      exact ⟨builtin, name, hid, hbuiltin⟩
  get?_eq := hmirrors.get?_eq hlists hsize
  contains_eq := by
    intro id
    rw [Registry.contains_eq, hmirrors.get?_eq hlists hsize]
    cases table.name? id with
    | none => rfl
    | some name => exact Std.HashMap.contains_eq_isSome_getElem?.symm
  get?_name := hmirrors.builtinFor?_eq
  call_eq := hmirrors.call_eq

end Registry.Mirrors

end Posl
