import Posl.Proofs.SymbolTable

/-!
# Names numbered as they come in

A table is asked for codes and names, and started over, in any order.  What it holds
at any time are the names interned since it was last started over: each has for its
code the number of other names that came before it.
-/

namespace Posl.SymbolTable

/-! ## Histories of a table -/

inductive Request where
  | intern (name : String)
  | id? (name : String)
  | name? (id : SymbolId)
  | size
  | isEmpty
  | reset

inductive Response where
  | code (id : SymbolId)
  | codeIfAny (id? : Option SymbolId)
  | nameIfAny (name? : Option String)
  | count (size : Nat)
  | flag (isEmpty : Bool)
  | done

namespace Request

def isLookup : Request → Bool
  | .intern _ | .reset => false
  | .id? _ | .name? _ | .size | .isEmpty => true

/-- The names interned since the table was last started over, given those before the
request.  A name is listed as often as it is interned. -/
def note (names : List String) : Request → List String
  | .intern name => names ++ [name]
  | .reset => []
  | .id? _ | .name? _ | .size | .isEmpty => names

end Request

/-- What a request is answered, and the table after it. -/
def serve (table : SymbolTable) : Request → Response × SymbolTable
  | .intern name =>
    let (id, table) := table.intern name
    (.code id, table)
  | .id? name => (.codeIfAny (table.id? name), table)
  | .name? id => (.nameIfAny (table.name? id), table)
  | .size => (.count table.size, table)
  | .isEmpty => (.flag table.isEmpty, table)
  | .reset => (.done, table.reset)

def run (table : SymbolTable) (requests : List Request) : SymbolTable :=
  requests.foldl (fun table request => (table.serve request).2) table

def responses (table : SymbolTable) : List Request → List Response
  | [] => []
  | request :: requests =>
    let (response, table) := table.serve request
    response :: table.responses requests

/-- The names interned since the last reset, in the order of the requests. -/
def recentNames (requests : List Request) : List String := requests.foldl Request.note []

/-! ## First occurrences -/

/-- A name behind a list is a new one at its end or changes nothing in the order of first
occurrence. -/
theorem eraseDups_concat (names : List String) (name : String) :
    (names ++ [name]).eraseDups = listed names.eraseDups name := by
  rw [List.eraseDups_append, listed]
  by_cases hmem : name ∈ names
  · simp [List.removeAll, hmem]
  · simp [List.removeAll, hmem, List.eraseDups_cons]

/-- The place of a name among first occurrences is the number of different names
before it. -/
theorem getElem?_eraseDups_of_mem {names : List String} {name : String} (hmem : name ∈ names) :
    names.eraseDups[(names.takeWhile (· ≠ name)).eraseDups.length]? = some name := by
  obtain ⟨before, after, rfl, hfirst⟩ := List.eq_append_cons_of_mem hmem
  have hbefore : (before ++ name :: after).takeWhile (· ≠ name) = before := by
    rw [List.takeWhile_append_of_pos, List.takeWhile_cons_of_neg, List.append_nil]
    · simp
    · rintro other hother
      simpa using fun heq : other = name => hfirst (heq ▸ hother)
  have hafter : (name :: after).removeAll before = name :: after.removeAll before := by
    simp [List.removeAll, hfirst]
  rw [hbefore, List.eraseDups_append, hafter, List.eraseDups_cons,
    List.getElem?_append_right (Nat.le_refl _), Nat.sub_self, List.getElem?_cons_zero]

/-! ## One request, and many -/

variable {table : SymbolTable} {names : List String}

theorem serve_of_isLookup {request : Request} (hlookup : request.isLookup) :
    (table.serve request).2 = table := by
  cases request with
  | intern | reset => exact absurd hlookup (by simp [Request.isLookup])
  | id? | name? | size | isEmpty => rfl

theorem Lists.serve (hlists : table.Lists names.eraseDups) (request : Request) :
    (table.serve request).2.Lists (Request.note names request).eraseDups := by
  cases request with
  | intern name =>
      rw [Request.note, eraseDups_concat]
      exact hlists.intern name
  | reset => exact lists_empty
  | id? | name? | size | isEmpty => exact hlists

theorem Lists.run (hlists : table.Lists names.eraseDups) (requests : List Request) :
    (table.run requests).Lists (requests.foldl Request.note names).eraseDups := by
  induction requests generalizing table names with
  | nil => exact hlists
  | cons request requests ih => exact ih (hlists.serve request)

/-- A table that has served requests lists the names interned since the last reset. -/
theorem lists_run (requests : List Request) :
    (run ∅ requests).Lists (recentNames requests).eraseDups :=
  lists_empty.run requests

theorem extends_serve (table : SymbolTable) {request : Request} (hkept : request ≠ .reset) :
    (table.serve request).2.Extends table := by
  cases request with
  | intern name => exact table.extends_intern name
  | reset => exact absurd rfl hkept
  | id? | name? | size | isEmpty => exact .refl table

/-- Names keep their codes until the next reset. -/
theorem extends_run (table : SymbolTable) {requests : List Request} (hkept : .reset ∉ requests) :
    (table.run requests).Extends table := by
  induction requests generalizing table with
  | nil => exact .refl table
  | cons request requests ih =>
      have hfirst : request ≠ .reset := (List.ne_of_not_mem_cons hkept).symm
      exact (ih _ (List.not_mem_of_not_mem_cons hkept)).trans (table.extends_serve hfirst)

/-! ## Numbering -/

/-- A table of names, given as often as they were interned: codes and names are in
step, the codes up to the size of the table are in use and no others, and the code of a
name is the number of different names before its first occurrence. -/
structure Numbers (table : SymbolTable) (names : List String) : Prop where
  inverse : ∀ name id, table.id? name = some id ↔ table.name? id = some name
  used_iff : ∀ id, (∃ name, table.name? id = some name) ↔ id.toNat < table.size
  size_eq : table.size = names.eraseDups.length
  code_iff : ∀ name id, table.id? name = some id ↔
    name ∈ names ∧ id.toNat = (names.takeWhile (· ≠ name)).eraseDups.length

/-- A table that lists names in the order of first occurrence numbers them so, as long as
there are codes for all. -/
theorem Lists.numbers (hlists : table.Lists names.eraseDups)
    (hcodes : names.eraseDups.length ≤ capacity) : table.Numbers names := by
  have hsize : table.size ≤ capacity := by rwa [hlists.size_eq]
  constructor
  · intro name id
    exact (hlists.name?_eq_some_iff hsize).symm
  · intro id
    rw [hlists.name?_eq hcodes, hlists.size_eq, ← Option.isSome_iff_exists, isSome_getElem?]
  · exact hlists.size_eq
  · intro name id
    rw [← hlists.name?_eq_some_iff hsize, hlists.name?_eq hcodes]
    constructor
    · intro hplace
      have hmem : name ∈ names := List.mem_eraseDups.mp (List.mem_of_getElem? hplace)
      obtain ⟨hlt, -⟩ := List.getElem?_eq_some_iff.mp hplace
      refine ⟨hmem, (List.getElem?_inj hlt hlists.nodup).mp ?_⟩
      rw [hplace, getElem?_eraseDups_of_mem hmem]
    · rintro ⟨hmem, hplace⟩
      rw [hplace, getElem?_eraseDups_of_mem hmem]

theorem intern_of_known (hlists : table.Lists names.eraseDups) {name : String}
    (hmem : name ∈ names) : (table.intern name).2 = table := by
  obtain ⟨id, hid⟩ := hlists.exists_id?_iff.mpr (List.mem_eraseDups.mpr hmem)
  rw [intern_of_some hid]

/-- Whatever a table is asked, it numbers the names interned since it was last started
over.  Names keep their codes until the next reset, interning gives the code that is
found afterwards, and a table that is started over answers as a new one. -/
theorem run_numbers_names (requests : List Request)
    (hcodes : (recentNames requests).eraseDups.length ≤ capacity) :
    let table := run ∅ requests
    table.Numbers (recentNames requests) ∧
      (∀ later, .reset ∉ later → (table.run later).Extends table) ∧
      (∀ name, (table.intern name).2.id? name = some (table.intern name).1 ∧
        (name ∈ recentNames requests → (table.intern name).2 = table)) ∧
      (∀ request : Request, request.isLookup → (table.serve request).2 = table) ∧
      ∀ later, (table.serve .reset).2.responses later = responses ∅ later := by
  intro table
  have hlists : table.Lists (recentNames requests).eraseDups := lists_run requests
  refine ⟨hlists.numbers hcodes, ?_, ?_, ?_, ?_⟩
  · exact fun later hkept => table.extends_run hkept
  · exact fun name => ⟨table.id?_intern_self name, intern_of_known hlists⟩
  · exact fun request hlookup => serve_of_isLookup hlookup
  · exact fun later => rfl

/-- The name that is interned twice keeps its code, and the one from before the reset
has none. -/
theorem run_numbers_three_names :
    let requests : List Request :=
      [.intern "old", .intern "lub", .reset, .intern "add", .name? 0, .intern "lub", .intern "add"]
    (recentNames requests).eraseDups.length ≤ capacity ∧
      (run ∅ requests).size = 2 ∧
      (run ∅ requests).id? "lub" = some 1 ∧
      (run ∅ requests).name? 1 = some "lub" ∧
      (run ∅ requests).id? "old" = none ∧
      ((run ∅ requests).intern "add").2 = run ∅ requests := by
  intro requests
  have hcodes : (recentNames requests).eraseDups.length ≤ capacity := by decide +kernel
  obtain ⟨hnumbers, -, hintern, -, -⟩ := run_numbers_names requests hcodes
  have hlub : (run ∅ requests).id? "lub" = some 1 :=
    (hnumbers.code_iff "lub" 1).mpr (by decide +kernel)
  refine ⟨hcodes, hnumbers.size_eq.trans (by decide +kernel), hlub,
    (hnumbers.inverse "lub" 1).mp hlub, ?_, (hintern "add").2 (by decide +kernel)⟩
  rw [Option.eq_none_iff_forall_ne_some]
  intro id hid
  obtain ⟨hmem, -⟩ := (hnumbers.code_iff "old" id).mp hid
  exact absurd hmem (by decide +kernel)

end Posl.SymbolTable
