import Posl.SymbolTable

/-!
# Tables as lists of names

A symbol table is a list of names without repetition, in the order in which they
came in.  The code of a name is its place in the list, counted in 32 bits, so
that no two names share a code as long as there are codes enough.
-/

namespace Posl.SymbolTable

def capacity : Nat := UInt32.size

/-- A list of names with one that is new put behind them. -/
def listed (names : List String) (name : String) : List String :=
  if name ∈ names then names else names ++ [name]

/-- A table that holds the names of a list in their order. -/
structure Lists (table : SymbolTable) (names : List String) : Prop where
  nodup : names.Nodup
  size_eq : table.size = names.length
  id?_iff : ∀ name id, table.id? name = some id ↔
    ∃ place, names[place]? = some name ∧ UInt32.ofNat place = id
  name?_eq : names.length ≤ capacity → ∀ id, table.name? id = names[id.toNat]?
  nextId_eq : table.nextId = UInt32.ofNat names.length

theorem lists_empty : Lists ∅ [] where
  nodup := .nil
  size_eq := Std.HashMap.size_empty
  id?_iff := by
    intro name id
    have hnone : id? ∅ name = none := Std.HashMap.getElem?_empty
    simp [hnone]
  name?_eq := fun _ _ => Std.HashMap.getElem?_empty
  nextId_eq := rfl

/-- A name that has a code keeps it, and the table stays as it is. -/
theorem intern_of_some {table : SymbolTable} {name : String} {id : SymbolId}
    (hid : table.id? name = some id) : table.intern name = (id, table) := by
  rw [intern, hid]

theorem intern_of_none {table : SymbolTable} {name : String} (hid : table.id? name = none) :
    table.intern name =
      (table.nextId,
        { idOfName := table.idOfName.insert name table.nextId
          nameOfId := table.nameOfId.insert table.nextId name
          nextId := table.nextId + 1 }) := by
  rw [intern, hid]

/-- Interning gives a name its code and leaves all other codes as they are. -/
theorem id?_intern (table : SymbolTable) (name other : String) :
    (table.intern name).2.id? other =
      if name = other then some (table.intern name).1 else table.id? other := by
  cases hid : table.id? name with
  | some id =>
      rw [intern_of_some hid]
      split
      · next heq => rw [← heq, hid]
      · rfl
  | none =>
      rw [intern_of_none hid]
      simp only [id?, Std.HashMap.getElem?_insert, beq_iff_eq]

theorem id?_intern_self (table : SymbolTable) (name : String) :
    (table.intern name).2.id? name = some (table.intern name).1 := by
  rw [id?_intern, if_pos rfl]

/-- A name that has a code keeps it. -/
theorem id?_intern_of_some {table : SymbolTable} {other : String} {id : SymbolId}
    (hid : table.id? other = some id) (name : String) :
    (table.intern name).2.id? other = some id := by
  rw [id?_intern]
  split
  · next heq => rw [heq, intern_of_some hid]
  · exact hid

/-- Interning takes no name out of a table. -/
theorem size_le_size_intern (table : SymbolTable) (name : String) :
    table.size ≤ (table.intern name).2.size := by
  cases hid : table.id? name with
  | some id => exact Nat.le_of_eq (by rw [intern_of_some hid])
  | none =>
      rw [intern_of_none hid]
      exact Std.HashMap.size_le_size_insert

/-- Whether a table has all names of an earlier one under the same codes. -/
def Extends (later earlier : SymbolTable) : Prop :=
  ∀ name id, earlier.id? name = some id → later.id? name = some id

theorem Extends.refl (table : SymbolTable) : table.Extends table := fun _ _ hid => hid

theorem Extends.trans {first second third : SymbolTable} (hlater : third.Extends second)
    (hearlier : second.Extends first) : third.Extends first :=
  fun name id hid => hlater name id (hearlier name id hid)

/-- A name that is interned takes no code away from another. -/
theorem extends_intern (table : SymbolTable) (name : String) :
    (table.intern name).2.Extends table :=
  fun _ _ hid => id?_intern_of_some hid name

namespace Lists

variable {table : SymbolTable} {names : List String}

theorem exists_id?_iff (hlists : table.Lists names) {name : String} :
    (∃ id, table.id? name = some id) ↔ name ∈ names := by
  simp only [hlists.id?_iff, List.mem_iff_getElem?]
  constructor
  · rintro ⟨id, place, hplace, -⟩
    exact ⟨place, hplace⟩
  · rintro ⟨place, hplace⟩
    exact ⟨_, place, hplace, rfl⟩

theorem getElem?_concat_iff {name other : String} {place : Nat} :
    (names ++ [name])[place]? = some other ↔
      names[place]? = some other ∨ place = names.length ∧ name = other := by
  rcases Nat.lt_trichotomy place names.length with hlt | heq | hgt
  · rw [List.getElem?_append_left hlt]
    simp [Nat.ne_of_lt hlt]
  · simp [heq]
  · have hnone : names[place]? = none := List.getElem?_eq_none (Nat.le_of_lt hgt)
    have hbehind : (names ++ [name])[place]? = none := List.getElem?_eq_none (by simp; omega)
    simp [hnone, hbehind, Nat.ne_of_gt hgt]

/-- A name that is new comes last. -/
theorem intern_of_not_mem (hlists : table.Lists names) {name : String} (hnew : name ∉ names) :
    (table.intern name).2.Lists (names ++ [name]) := by
  have hid : table.id? name = none := by
    rw [Option.eq_none_iff_forall_ne_some]
    exact fun id hsome => hnew (hlists.exists_id?_iff.mp ⟨id, hsome⟩)
  have hcode : (table.intern name).1 = UInt32.ofNat names.length := by
    rw [SymbolTable.intern_of_none hid, hlists.nextId_eq]
  have hfirst : ∀ place, names[place]? ≠ some name := fun place hplace =>
    hnew (List.mem_of_getElem? hplace)
  refine ⟨?_, ?_, ?_, ?_, ?_⟩
  · rw [List.nodup_append]
    refine ⟨hlists.nodup, by simp, ?_⟩
    rintro other hother _ hname rfl
    exact hnew (List.mem_singleton.mp hname ▸ hother)
  · have habsent : name ∉ table.idOfName := by
      rw [Std.HashMap.mem_iff_isSome_getElem?, ← SymbolTable.id?, hid]
      simp
    have hsize : table.idOfName.size = names.length := hlists.size_eq
    rw [SymbolTable.intern_of_none hid, SymbolTable.size, Std.HashMap.size_insert, if_neg habsent]
    simp [hsize]
  · intro other id
    rw [id?_intern, hcode]
    simp only [getElem?_concat_iff]
    split
    · next heq =>
        subst heq
        simp [hfirst]
    · next hne => simp [hne, hlists.id?_iff]
  · intro hlength id
    rw [List.length_append, List.length_singleton] at hlength
    have hnext : table.nextId.toNat = names.length := by
      rw [hlists.nextId_eq, UInt32.toNat_ofNat_of_lt' hlength]
    rw [SymbolTable.intern_of_none hid, name?, Std.HashMap.getElem?_insert, ← name?,
      hlists.name?_eq (Nat.le_of_succ_le hlength)]
    by_cases heq : table.nextId = id
    · simp [← heq, hnext]
    · have hne : id.toNat ≠ names.length := fun hplace =>
        heq (UInt32.toNat_inj.mp (hnext.trans hplace.symm))
      have hkept : (names ++ [name])[id.toNat]? = names[id.toNat]? := by
        ext other
        rw [getElem?_concat_iff]
        simp [hne]
      rw [if_neg (by simpa using heq), hkept]
  · rw [SymbolTable.intern_of_none hid, List.length_append, List.length_singleton,
      UInt32.ofNat_add, hlists.nextId_eq]
    rfl

theorem intern (hlists : table.Lists names) (name : String) :
    (table.intern name).2.Lists (listed names name) := by
  rw [listed]
  split
  · next hmem =>
      obtain ⟨id, hid⟩ := hlists.exists_id?_iff.mpr hmem
      rw [intern_of_some hid]
      exact hlists
  · next hnew => exact hlists.intern_of_not_mem hnew

/-- The two maps are inverse to each other where there are codes enough. -/
theorem name?_eq_some_iff (hlists : table.Lists names) (hsize : table.size ≤ capacity)
    {name : String} {id : SymbolId} :
    table.name? id = some name ↔ table.id? name = some id := by
  rw [hlists.size_eq] at hsize
  rw [hlists.name?_eq hsize, hlists.id?_iff]
  constructor
  · exact fun hplace => ⟨id.toNat, hplace, UInt32.ofNat_toNat⟩
  · rintro ⟨place, hplace, rfl⟩
    obtain ⟨hlt, -⟩ := List.getElem?_eq_some_iff.mp hplace
    rwa [UInt32.toNat_ofNat_of_lt' (Nat.lt_of_lt_of_le hlt hsize)]

/-- No two names share a code where there are codes enough. -/
theorem eq_of_id? (hlists : table.Lists names) (hsize : table.size ≤ capacity)
    {left right : String} {id : SymbolId} (hleft : table.id? left = some id)
    (hright : table.id? right = some id) : left = right := by
  rw [← hlists.name?_eq_some_iff hsize] at hleft hright
  exact Option.some.inj (hleft.symm.trans hright)

end Lists

end Posl.SymbolTable
