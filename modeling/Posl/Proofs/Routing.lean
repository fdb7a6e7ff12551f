import Posl.Registry
import Posl.Proofs.SymbolTable

/-!
# Routing by name

A call goes from a name to a code and from the code to a built-in.  As long as no
two names share a code, a registry is a map from names to built-ins: putting in a
built-in that was made for a name changes what that name leads to and nothing else.
-/

namespace Posl

namespace CallResult

/-- The result of a call that a built-in answers. -/
def ofAnswer : Option Clause → CallResult
  | none => .fails
  | some fact => .derives fact

theorem ofAnswer_eq_derives_iff {answer : Option Clause} {fact : Clause} :
    ofAnswer answer = .derives fact ↔ answer = some fact := by
  cases answer <;> simp [ofAnswer]

end CallResult

namespace Builtin

/-- Whether the name that the built-in was made for still has the code of then. -/
def IsCurrent (builtin : Builtin) (table : SymbolTable) : Prop :=
  table.id? builtin.name = some builtin.symbol

/-- A built-in is made with the code that its name has then. -/
theorem isCurrent_make (table : SymbolTable) (name : String) (answer? : Term → Option Clause) :
    (make table name answer?).1.IsCurrent (make table name answer?).2 :=
  SymbolTable.id?_intern_self table name

end Builtin

/-- What comes of a call where the standard built-ins are registered and no others. -/
def StandardBuiltin.callAtom (atom : Term) : CallResult :=
  match atom.symbolName?.bind ofName? with
  | some builtin => .ofAnswer (builtin.answer? atom)
  | none => .notBuiltin

namespace Registry

def builtinFor? (registry : Registry) (table : SymbolTable) (name : String) : Option Builtin :=
  (table.id? name).bind registry.get?

theorem route?_eq (registry : Registry) (table : SymbolTable) (atom : Term) :
    registry.route? table atom = atom.symbolName?.bind (registry.builtinFor? table) := rfl

theorem callAtom_of_route?_some {registry : Registry} {table : SymbolTable} {atom : Term}
    {builtin : Builtin} (hroute : registry.route? table atom = some builtin) :
    registry.callAtom table atom = .ofAnswer (builtin.answer? atom) := by
  simp only [callAtom, hroute]
  cases builtin.answer? atom <;> rfl

theorem callAtom_of_route?_none {registry : Registry} {table : SymbolTable} {atom : Term}
    (hroute : registry.route? table atom = none) :
    registry.callAtom table atom = .notBuiltin := by
  rw [callAtom, hroute]

/-- A call is answered by the built-in that the atom is routed to, or by none. -/
theorem callAtom_eq_iff {registry : Registry} {table : SymbolTable} {atom : Term}
    {result : CallResult} (hresult : result ≠ .notBuiltin) :
    registry.callAtom table atom = result ↔
      ∃ builtin, registry.route? table atom = some builtin ∧
        result = .ofAnswer (builtin.answer? atom) := by
  cases hroute : registry.route? table atom with
  | none => simp [callAtom_of_route?_none hroute, hresult.symm]
  | some builtin => simp [callAtom_of_route?_some hroute, eq_comm]

theorem get?_empty (id : SymbolId) : get? ∅ id = none := Std.TreeMap.getElem?_emptyc

theorem get?_insert (registry : Registry) (builtin : Builtin) (id : SymbolId) :
    (registry.insert builtin).get? id =
      if builtin.symbol = id then some builtin else registry.get? id := by
  simp only [get?, insert, Std.TreeMap.getElem?_insert, Std.LawfulEqCmp.compare_eq_iff_eq]

theorem builtinFor?_empty (table : SymbolTable) (name : String) :
    builtinFor? ∅ table name = none := by
  cases hid : table.id? name with
  | none => rw [builtinFor?, hid, Option.bind_none]
  | some id => rw [builtinFor?, hid, Option.bind_some, get?_empty]

/-- Puts in a built-in that was made for a name, and takes over the table that has
the name. -/
def insertMade (state : Registry × SymbolTable) (name : String)
    (answer? : Term → Option Clause) : Registry × SymbolTable :=
  let (builtin, table) := Builtin.make state.2 name answer?
  (state.1.insert builtin, table)

section InsertMade

variable {registry : Registry} {table : SymbolTable} {names : List String}

/-- As long as codes are not used up, a new built-in answers to its own name, and to no
other one. -/
theorem builtinFor?_insertMade (hlists : table.Lists names) {name : String}
    {answer? : Term → Option Clause}
    (hsize : (insertMade (registry, table) name answer?).2.size ≤ SymbolTable.capacity)
    (other : String) :
    (insertMade (registry, table) name answer?).1.builtinFor?
        (insertMade (registry, table) name answer?).2 other =
      if name = other then some (Builtin.make table name answer?).1
      else registry.builtinFor? table other := by
  simp only [insertMade, Builtin.make, builtinFor?, SymbolTable.id?_intern]
  split
  · rw [Option.bind_some, get?_insert, if_pos rfl]
  · next hne =>
      cases hother : table.id? other with
      | none => rfl
      | some id =>
          have hcode : (table.intern name).1 ≠ id := fun heq =>
            hne ((hlists.intern name).eq_of_id? hsize (SymbolTable.id?_intern_self table name)
              (heq ▸ SymbolTable.id?_intern_of_some hother name))
          rw [Option.bind_some, Option.bind_some, get?_insert, if_neg hcode]

/-- Every built-in stands under its own code, and its name still has that code, but
for built-ins that may be stale. -/
def CurrentExcept (stale : Builtin → Prop) (registry : Registry) (table : SymbolTable) : Prop :=
  ∀ id builtin, registry.get? id = some builtin →
    builtin.symbol = id ∧ (builtin.IsCurrent table ∨ stale builtin)

namespace CurrentExcept

variable {stale : Builtin → Prop}

theorem empty (stale : Builtin → Prop) (table : SymbolTable) : CurrentExcept stale ∅ table := by
  intro id builtin hget
  rw [get?_empty] at hget
  exact absurd hget (by simp)

/-- A later table keeps the codes of an earlier one, so built-ins that were current stay
so. -/
theorem extend (hcurrent : registry.CurrentExcept stale table) {later : SymbolTable}
    (hextends : later.Extends table) : registry.CurrentExcept stale later := by
  intro id builtin hget
  obtain ⟨hsymbol, hname⟩ := hcurrent id builtin hget
  exact ⟨hsymbol, hname.imp_left (hextends _ _)⟩

theorem insert (hcurrent : registry.CurrentExcept stale table) {builtin : Builtin}
    (hbuiltin : builtin.IsCurrent table ∨ stale builtin) :
    (registry.insert builtin).CurrentExcept stale table := by
  intro id other hget
  rw [get?_insert] at hget
  split at hget
  · next hsymbol =>
      obtain rfl := Option.some.inj hget
      exact ⟨hsymbol, hbuiltin⟩
  · exact hcurrent id other hget

theorem insertMade (hcurrent : registry.CurrentExcept stale table) (name : String)
    (answer? : Term → Option Clause) :
    (insertMade (registry, table) name answer?).1.CurrentExcept stale
      (Registry.insertMade (registry, table) name answer?).2 :=
  (hcurrent.extend (table.extends_intern name)).insert (.inl (Builtin.isCurrent_make ..))

/-- The built-in that a name leads to was made for that name, or is stale. -/
theorem of_builtinFor? (hcurrent : registry.CurrentExcept stale table)
    (hlists : table.Lists names) (hsize : table.size ≤ SymbolTable.capacity) {name : String}
    {builtin : Builtin} (hbuiltin : registry.builtinFor? table name = some builtin) :
    table.id? name = some builtin.symbol ∧ registry.get? builtin.symbol = some builtin ∧
      (builtin.name = name ∨ stale builtin) := by
  obtain ⟨id, hid, hget⟩ := Option.bind_eq_some_iff.mp hbuiltin
  obtain ⟨rfl, hname⟩ := hcurrent id builtin hget
  exact ⟨hid, hget, hname.imp_left fun hcode => hlists.eq_of_id? hsize hcode hid⟩

end CurrentExcept

end InsertMade

/-! ## The standard registry -/

def insertStandard (state : Registry × SymbolTable) (builtin : StandardBuiltin) :
    Registry × SymbolTable :=
  insertMade state builtin.name builtin.answer?

theorem standard_eq_foldl (table : SymbolTable) :
    standard table = StandardBuiltin.all.foldl insertStandard (∅, table) := rfl

theorem size_le_size_foldl (builtins : List StandardBuiltin) (state : Registry × SymbolTable) :
    state.2.size ≤ (builtins.foldl insertStandard state).2.size := by
  induction builtins generalizing state with
  | nil => exact Nat.le_refl _
  | cons builtin builtins ih =>
      exact Nat.le_trans (SymbolTable.size_le_size_intern state.2 builtin.name)
        (ih (insertStandard state builtin))

/-- The names of built-ins are put behind those of the table in the order in which the
built-ins are put in. -/
theorem lists_foldl (builtins : List StandardBuiltin) {state : Registry × SymbolTable}
    {names : List String} (hlists : state.2.Lists names) :
    (builtins.foldl insertStandard state).2.Lists
      ((builtins.map (·.name)).foldl SymbolTable.listed names) := by
  induction builtins generalizing state names with
  | nil => exact hlists
  | cons builtin builtins ih => exact ih (hlists.intern builtin.name)

theorem extends_foldl (builtins : List StandardBuiltin) (state : Registry × SymbolTable) :
    (builtins.foldl insertStandard state).2.Extends state.2 := by
  induction builtins generalizing state with
  | nil => exact .refl state.2
  | cons builtin builtins ih =>
      exact (ih (insertStandard state builtin)).trans (state.2.extends_intern builtin.name)

/-- No built-in becomes stale as others are put in, since each of them extends the table. -/
theorem currentExcept_foldl (builtins : List StandardBuiltin) {stale : Builtin → Prop}
    {state : Registry × SymbolTable} (hcurrent : state.1.CurrentExcept stale state.2) :
    (builtins.foldl insertStandard state).1.CurrentExcept stale
      (builtins.foldl insertStandard state).2 := by
  induction builtins generalizing state with
  | nil => exact hcurrent
  | cons builtin builtins ih => exact ih (hcurrent.insertMade builtin.name builtin.answer?)

/-- Of built-ins with names of their own, each is what its name leads to. -/
theorem builtinFor?_foldl (builtins : List StandardBuiltin)
    (hnodup : (builtins.map (·.name)).Nodup) {state : Registry × SymbolTable}
    {names : List String} (hlists : state.2.Lists names)
    (hsize : (builtins.foldl insertStandard state).2.size ≤ SymbolTable.capacity)
    (name : String) :
    ((builtins.foldl insertStandard state).1.builtinFor?
        (builtins.foldl insertStandard state).2 name).map (·.answer?) =
      ((builtins.find? (·.name == name)).map (·.answer?)).or
        ((state.1.builtinFor? state.2 name).map (·.answer?)) := by
  induction builtins generalizing state names with
  | nil => rfl
  | cons builtin builtins ih =>
      obtain ⟨hnew, hnodup⟩ := List.nodup_cons.mp hnodup
      have hstep : (insertStandard state builtin).2.size ≤ SymbolTable.capacity :=
        Nat.le_trans (size_le_size_foldl builtins _) hsize
      rw [List.foldl_cons, ih hnodup (hlists.intern builtin.name) hsize]
      rw [insertStandard, builtinFor?_insertMade hlists hstep, List.find?_cons]
      by_cases heq : builtin.name = name
      · have hnone : builtins.find? (·.name == name) = none := by
          rw [List.find?_eq_none]
          intro other hother hname
          have hsame : other.name = builtin.name := (beq_iff_eq.mp hname).trans heq.symm
          exact hnew (List.mem_map.mpr ⟨other, hother, hsame⟩)
        simp [heq, hnone, Builtin.make]
      · rw [if_neg heq, beq_false_of_ne heq]

section Standard

variable {table : SymbolTable} {names : List String}

theorem extends_standard (table : SymbolTable) : (standard table).2.Extends table :=
  extends_foldl StandardBuiltin.all (∅, table)

/-- A standard registry holds no stale built-ins, whatever the table held before. -/
theorem currentExcept_standard (stale : Builtin → Prop) (table : SymbolTable) :
    (standard table).1.CurrentExcept stale (standard table).2 :=
  currentExcept_foldl StandardBuiltin.all (.empty stale table)

theorem lists_standard (hlists : table.Lists names) :
    (standard table).2.Lists ((StandardBuiltin.all.map (·.name)).foldl SymbolTable.listed names) :=
  lists_foldl StandardBuiltin.all hlists

/-- Each standard name leads to its own built-in, and no other name to any. -/
theorem builtinFor?_standard (hlists : table.Lists names)
    (hsize : (standard table).2.size ≤ SymbolTable.capacity) (name : String) :
    ((standard table).1.builtinFor? (standard table).2 name).map (·.answer?) =
      (StandardBuiltin.ofName? name).map (·.answer?) := by
  rw [standard_eq_foldl, builtinFor?_foldl StandardBuiltin.all (by decide) hlists hsize name,
    builtinFor?_empty, Option.map_none, Option.or_none, StandardBuiltin.ofName?]

/-- Calls of the standard predicates are answered by their built-ins, and no
others are answered. -/
theorem callAtom_standard (hlists : table.Lists names)
    (hsize : (standard table).2.size ≤ SymbolTable.capacity) :
    (standard table).1.callAtom (standard table).2 = StandardBuiltin.callAtom := by
  funext atom
  have hroute := route?_eq (standard table).1 (standard table).2 atom
  rw [StandardBuiltin.callAtom]
  cases hname : atom.symbolName? with
  | none =>
      rw [hname] at hroute
      exact callAtom_of_route?_none hroute
  | some name =>
      rw [hname, Option.bind_some] at hroute
      have hanswer := builtinFor?_standard hlists hsize name
      rw [← hroute] at hanswer
      rw [Option.bind_some]
      cases hstandard : StandardBuiltin.ofName? name with
      | none =>
          rw [hstandard, Option.map_none, Option.map_eq_none_iff] at hanswer
          exact callAtom_of_route?_none hanswer
      | some builtin =>
          rw [hstandard, Option.map_some, Option.map_eq_some_iff] at hanswer
          obtain ⟨routed, hrouted, heq⟩ := hanswer
          rw [callAtom_of_route?_some hrouted, heq]

/-- What the standard registry makes of a term that is named for a built-in. -/
theorem callAtom_standard_of_symbolName? (hlists : table.Lists names)
    (hsize : (standard table).2.size ≤ SymbolTable.capacity) {builtin : StandardBuiltin}
    {atom : Term} (hatom : atom.symbolName? = some builtin.name) :
    (standard table).1.callAtom (standard table).2 atom = .ofAnswer (builtin.answer? atom) := by
  have hname : StandardBuiltin.ofName? builtin.name = some builtin := by
    cases builtin <;> decide
  rw [callAtom_standard hlists hsize, StandardBuiltin.callAtom, hatom, Option.bind_some, hname]

/-- What the standard registry makes of a call of the predicate of a built-in. -/
theorem callAtom_standard_of_name (hlists : table.Lists names)
    (hsize : (standard table).2.size ≤ SymbolTable.capacity) (builtin : StandardBuiltin)
    (args : List Term) :
    (standard table).1.callAtom (standard table).2 (.atom builtin.name args) =
      .ofAnswer (builtin.answer? (.atom builtin.name args)) :=
  callAtom_standard_of_symbolName? hlists hsize rfl

/-- A clause is called at one of its atoms, and beyond the last of them nothing is
called. -/
theorem call_standard (hlists : table.Lists names)
    (hsize : (standard table).2.size ≤ SymbolTable.capacity) (clause : Clause) (index : Nat) :
    (standard table).1.call (standard table).2 clause index =
      (clause.atomAt index).map StandardBuiltin.callAtom := by
  rw [call, callAtom_standard hlists hsize]

theorem lists_standard_empty : (standard ∅).2.Lists (StandardBuiltin.all.map (·.name)) := by
  have hnames : (StandardBuiltin.all.map (·.name)).foldl SymbolTable.listed [] =
      StandardBuiltin.all.map (·.name) := by decide +kernel
  rw [← hnames]
  exact lists_standard SymbolTable.lists_empty

/-- The standard built-ins need a few codes only, so a new table is not filled up by
them. -/
theorem size_standard_empty : (standard ∅).2.size ≤ SymbolTable.capacity := by
  rw [lists_standard_empty.size_eq]
  decide

/-- The first standard built-in has the first code of a table that was empty. -/
theorem exists_add_standard_empty :
    ∃ builtin, (standard ∅).1.get? 0 = some builtin ∧
      builtin.answer? = StandardBuiltin.add.answer? := by
  have hanswer := builtinFor?_standard SymbolTable.lists_empty size_standard_empty "add"
  have hadd : StandardBuiltin.ofName? "add" = some .add := by decide
  rw [hadd, Option.map_some, Option.map_eq_some_iff] at hanswer
  obtain ⟨builtin, hbuiltin, hanswer⟩ := hanswer
  obtain ⟨id, hid, hget⟩ := Option.bind_eq_some_iff.mp hbuiltin
  have hcode : (standard ∅).2.id? "add" = some 0 :=
    (lists_standard_empty.id?_iff "add" 0).mpr ⟨0, rfl, rfl⟩
  obtain rfl := Option.some.inj (hcode.symm.trans hid)
  exact ⟨builtin, hget, hanswer⟩

/-- Every built-in of the standard registry was made for a standard name. -/
theorem name_mem_of_get?_standard_empty {id : SymbolId} {builtin : Builtin}
    (hget : (standard ∅).1.get? id = some builtin) :
    builtin.name ∈ StandardBuiltin.all.map (·.name) := by
  obtain ⟨-, hcurrent | hstale⟩ :=
    currentExcept_standard (fun _ => False) ∅ id builtin hget
  · exact lists_standard_empty.exists_id?_iff.mp ⟨_, hcurrent⟩
  · exact hstale.elim

end Standard

end Registry

end Posl
