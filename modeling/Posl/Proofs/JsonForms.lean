import Posl.TypeQuery.Json
import Posl.Proofs.WellFormed

/-!
# Values as they stand in JSON

Which objects spell a term, a clause or a query is said by the fields that they have,
in any order and among any others.  Whatever spells a value is read as that value, what
is written for a value spells it, and nothing is written besides the fields of the
format.
-/

namespace Posl

/-! ## Fields and layouts -/

namespace Json

/-- A field with a value of the given kind. -/
def Holds (json : Json) (key : String) (spelled : Json → Prop) : Prop :=
  ∃ value, json.get? key = some value ∧ spelled value

/-- A field with a text, or one that is null or missing where there is no text. -/
inductive HoldsOptional (json : Json) (key : String) : Option String → Prop
  | missing : json.get? key = none → HoldsOptional json key none
  | null : json.get? key = some .null → HoldsOptional json key none
  | text {value} : json.get? key = some (.string value) → HoldsOptional json key (some value)

/-- Values in which every object, at any depth, has the keys of a layout, in their
order, and no others. -/
inductive IsLaidOut (layouts : List (List String)) : Json → Prop
  | null : IsLaidOut layouts .null
  | integer {value} : IsLaidOut layouts (.integer value)
  | string {value} : IsLaidOut layouts (.string value)
  | array {items} : (∀ item ∈ items, IsLaidOut layouts item) → IsLaidOut layouts (.array items)
  | object {fields} : fields.map (·.1) ∈ layouts →
      (∀ field ∈ fields, IsLaidOut layouts field.2) → IsLaidOut layouts (.object fields)

theorem exists_fields_of_get? {json value : Json} {key : String}
    (hvalue : json.get? key = some value) : ∃ fields, json = .object fields := by
  cases json with
  | object fields => exact ⟨fields, rfl⟩
  | null | bool | integer | decimal | string | array => exact absurd hvalue (by simp [get?])

theorem le_maxIndex_of_index? {json : Json} {index : Nat} (hindex : json.index? = some index) :
    index ≤ maxIndex := by
  unfold index? at hindex
  split at hindex
  · split at hindex
    · next hle =>
        obtain rfl := Option.some.inj hindex
        exact hle
    · exact absurd hindex (by simp)
  · exact absurd hindex (by simp)

/-- A field that is missing and one that is null are read alike. -/
theorem HoldsOptional.optionalString?_eq {json : Json} {key : String} {value : Option String}
    (hvalue : json.HoldsOptional key value) : json.optionalString? key = some value := by
  cases hvalue with
  | missing hget => rw [optionalString?, hget]
  | null hget => rw [optionalString?, hget]
  | text hget => rw [optionalString?, hget]

theorem IsLaidOut.mono {layouts others : List (List String)} {json : Json}
    (hjson : json.IsLaidOut layouts) (hsubset : layouts ⊆ others) : json.IsLaidOut others := by
  induction hjson with
  | null => exact .null
  | integer => exact .integer
  | string => exact .string
  | array _ ih => exact .array ih
  | object hkeys _ ih => exact .object (hsubset hkeys) ih

theorem isLaidOut_ofStrings (layouts : List (List String)) (values : List String) :
    (ofStrings values).IsLaidOut layouts := by
  refine .array (List.forall_mem_map.mpr ?_)
  exact fun _ _ => .string

theorem isLaidOut_ofString? (layouts : List (List String)) (value : Option String) :
    (ofString? value).IsLaidOut layouts := by
  cases value with
  | none => exact .null
  | some value => exact .string

/-! ## Lists -/

/-- What is read from a list is read from its items, one by one. -/
theorem exists_item_of_mapM {α : Type} {read? : Json → Option α} {values : List α}
    {items : List Json} (hread : items.mapM read? = some values) :
    ∀ value ∈ values, ∃ item, read? item = some value := by
  rw [mapM_eq_some_iff] at hread
  induction hread with
  | nil => exact List.forall_mem_nil _
  | cons hfirst _ ih => exact List.forall_mem_cons.mpr ⟨⟨_, hfirst⟩, ih⟩

theorem strings?_ofStrings (values : List String) : (ofStrings values).strings? = some values := by
  change (values.map Json.string).mapM string? = some values
  rw [mapM_eq_some_iff, List.forall₂_map_right_iff, List.forall₂_same]
  exact fun value _ => rfl

/-! ## Reading what is written -/

/-- The values of a type in JSON: whatever spells a value is read as it; a sound value is
read from what is written for it, and so is every value that was read from anywhere; and
what is written has the fields of the format and no others. -/
structure Codes {α : Type} (sound : α → Prop) (spelledBy : α → Json → Prop)
    (layouts : List (List String)) (write : α → Json) (read? : Json → Option α) : Prop where
  read_of_spelledBy : ∀ value json, spelledBy value json → read? json = some value
  read_write : ∀ value, sound value → read? (write value) = some value
  read_write_of_read : ∀ json value, read? json = some value → read? (write value) = some value
  isLaidOut_write : ∀ value, (write value).IsLaidOut layouts

/-- It is enough that what is written spells the value, and that only sound values are
read. -/
theorem Codes.of_spelledBy {α : Type} {sound : α → Prop} {spelledBy : α → Json → Prop}
    {layouts : List (List String)} {write : α → Json} {read? : Json → Option α}
    (hread : ∀ {value json}, spelledBy value json → read? json = some value)
    (hwrite : ∀ {value}, sound value → spelledBy value (write value))
    (hsound : ∀ {json value}, read? json = some value → sound value)
    (hlayout : ∀ value, (write value).IsLaidOut layouts) :
    Codes sound spelledBy layouts write read? where
  read_of_spelledBy := fun _ _ hspelled => hread hspelled
  read_write := fun _ hvalue => hread (hwrite hvalue)
  read_write_of_read := fun _ _ hvalue => hread (hwrite (hsound hvalue))
  isLaidOut_write := hlayout

end Json

/-! ## Terms -/

namespace Term

/-- Whether all indices fit a word of 64 bits. -/
def HasWordIndices (term : Term) : Prop := ∀ index ∈ term.variableIndices, index ≤ Json.maxIndex

@[simp]
theorem hasWordIndices_expr {functor : String} {args : List Term} :
    (expr functor args).HasWordIndices ↔ ∀ arg ∈ args, arg.HasWordIndices := by
  simp only [HasWordIndices, variableIndices, variableIndicesOfEach_eq_flatMap, List.mem_flatMap]
  constructor
  · intro hargs arg hmem index hindex
    exact hargs index ⟨arg, hmem, hindex⟩
  · rintro hargs index ⟨arg, hmem, hindex⟩
    exact hargs arg hmem index hindex

@[simp]
theorem hasWordIndices_atom {predicate : String} {args : List Term} :
    (atom predicate args).HasWordIndices ↔ ∀ arg ∈ args, arg.HasWordIndices :=
  @hasWordIndices_expr predicate args

/-- The objects that spell a term: the tag and the fields of its kind are there.  The
arguments of a term are spelled in their order, and paired with their items by a zip, as
an induction then has a hypothesis for each pair. -/
inductive SpelledBy : Term → Json → Prop
  | var {index type json} : json.get? "kind" = some (.string "var") →
      json.get? "index" = some (.integer index) → index ≤ Json.maxIndex →
      json.HoldsOptional "ty" type → SpelledBy (.var index type) json
  | anon {json} : json.get? "kind" = some (.string "anon") → SpelledBy .anon json
  | const {name type json} : json.get? "kind" = some (.string "const") →
      json.get? "name" = some (.string name) → json.HoldsOptional "ty" type →
      SpelledBy (.const name type) json
  | expr {functor args json items} : json.get? "kind" = some (.string "expr") →
      json.get? "functor" = some (.string functor) → json.get? "args" = some (.array items) →
      args.length = items.length →
      (∀ {arg item}, (arg, item) ∈ args.zip items → SpelledBy arg item) →
      SpelledBy (.expr functor args) json
  | atom {predicate args json items} : json.get? "kind" = some (.string "atom") →
      json.get? "predicate" = some (.string predicate) → json.get? "args" = some (.array items) →
      args.length = items.length →
      (∀ {arg item}, (arg, item) ∈ args.zip items → SpelledBy arg item) →
      SpelledBy (.atom predicate args) json

def layouts : List (List String) :=
  [["kind", "index"], ["kind", "index", "ty"], ["kind"], ["kind", "name"], ["kind", "name", "ty"],
    ["kind", "functor", "args"], ["kind", "predicate", "args"]]

/-! ### Reading -/

theorem ofEach?_eq_mapM (nested : Bool) (items : List Json) :
    ofEach? nested items = items.mapM (ofJsonAt? nested) := by
  induction items with
  | nil => rfl
  | cons item items ih =>
      rw [List.mapM_cons, ← ih]
      rfl

theorem argumentsOf?_eq (fields : List (String × Json)) :
    argumentsOf? fields = (fields.lookup "args").bind (ofArray? true) := by
  induction fields with
  | nil => rfl
  | cons field fields ih =>
      obtain ⟨key, value⟩ := field
      rw [argumentsOf?, List.lookup_cons]
      by_cases hkey : key = "args"
      · simp [hkey]
      · have hne : ("args" == key) = false := beq_false_of_ne (Ne.symm hkey)
        rw [if_neg hkey, hne, ih]

/-- An object whose tag names a kind is read as a term of that kind. -/
theorem ofJsonAt?_of_kind {json : Json} {name : String} {kind : Kind}
    (hname : json.get? "kind" = some (.string name)) (hkind : Kind.byName.lookup name = some kind)
    (nested : Bool) :
    ofJsonAt? nested json =
      ofRecord? kind json ((json.get? "args").bind (ofArray? true)) := by
  obtain ⟨fields, rfl⟩ := Json.exists_fields_of_get? hname
  change fields.lookup "kind" = some (.string name) at hname
  rw [ofJsonAt?, hname, argumentsOf?_eq]
  change (Kind.byName.lookup name).bind _ = _
  rw [hkind]
  rfl

/-- Items that spell the arguments one by one are read as the arguments. -/
theorem ofArray?_of_zip {args : List Term} {items : List Json} {nested : Bool}
    (hlength : args.length = items.length)
    (hitems : ∀ {arg item}, (arg, item) ∈ args.zip items → ofJsonAt? nested item = some arg) :
    ofArray? nested (.array items) = some args := by
  rw [ofArray?, ofEach?_eq_mapM, mapM_eq_some_iff, List.forall₂_iff_zip]
  exact ⟨hlength, hitems⟩

/-- Whatever order its fields are in, and whatever others stand beside them, an object is
read as the term that it spells. -/
theorem SpelledBy.ofJsonAt?_eq {term : Term} {json : Json} (hterm : term.SpelledBy json)
    (nested : Bool) : ofJsonAt? nested json = some term := by
  induction hterm generalizing nested with
  | var hkind hindex hword htype =>
      rw [ofJsonAt?_of_kind hkind rfl, ofRecord?, hindex, htype.optionalString?_eq]
      simp [Json.index?, hword]
  | anon hkind => rw [ofJsonAt?_of_kind hkind rfl, ofRecord?]
  | const hkind hname htype =>
      rw [ofJsonAt?_of_kind hkind rfl, ofRecord?, hname, htype.optionalString?_eq]
      rfl
  | expr hkind hfunctor hargs hlength _ ih =>
      rw [ofJsonAt?_of_kind hkind rfl, ofRecord?, hfunctor, hargs, Option.bind_some,
        ofArray?_of_zip hlength fun hmem => ih hmem true]
      rfl
  | atom hkind hpredicate hargs hlength _ ih =>
      rw [ofJsonAt?_of_kind hkind rfl, ofRecord?, hpredicate, hargs, Option.bind_some,
        ofArray?_of_zip hlength fun hmem => ih hmem true]
      rfl

theorem exists_item_of_ofArray? {nested : Bool} {json : Json} {args : List Term}
    (hread : ofArray? nested json = some args) :
    ∀ arg ∈ args, ∃ item, ofJsonAt? nested item = some arg := by
  cases json with
  | array items =>
      rw [ofArray?, ofEach?_eq_mapM] at hread
      exact Json.exists_item_of_mapM hread
  | null | bool | integer | decimal | string | object => exact absurd hread (by simp [ofArray?])

/-- What is read is the term of a record, with arguments that are read themselves. -/
theorem exists_record_of_ofJsonAt? {nested : Bool} {json : Json} {term : Term}
    (hread : ofJsonAt? nested json = some term) :
    ∃ kind record args?, ofRecord? kind record args? = some term ∧
      ∀ args, args? = some args → ∀ arg ∈ args, ∃ item, ofJsonAt? true item = some arg := by
  cases json with
  | object fields =>
      rw [ofJsonAt?] at hread
      obtain ⟨tag, -, hread⟩ := Option.bind_eq_some_iff.mp hread
      obtain ⟨kind, -, hrecord⟩ := Option.bind_eq_some_iff.mp hread
      refine ⟨kind, _, _, hrecord, fun args hargs => ?_⟩
      rw [argumentsOf?_eq] at hargs
      obtain ⟨value, -, hvalue⟩ := Option.bind_eq_some_iff.mp hargs
      exact exists_item_of_ofArray? hvalue
  | array items =>
      cases items with
      | nil => exact absurd hread (by simp [ofJsonAt?])
      | cons tag items =>
          rw [ofJsonAt?] at hread
          obtain ⟨kind, -, hread⟩ := Option.bind_eq_some_iff.mp hread
          obtain ⟨record, -, hrecord⟩ := Option.bind_eq_some_iff.mp hread
          refine ⟨kind, record, _, hrecord, fun args hargs => ?_⟩
          match items with
          | [] | [_] => exact absurd hargs (by simp [argumentsAt?])
          | _ :: value :: _ => exact exists_item_of_ofArray? hargs
  | null | bool | integer | decimal | string => exact absurd hread (by simp [ofJsonAt?])

/-- A variable that is read has an index of 64 bits, and the arguments of a term are those
that were read for it. -/
theorem ofRecord?_eq_some {kind : Kind} {record : Json} {args? : Option (List Term)} {term : Term}
    (hrecord : ofRecord? kind record args? = some term) :
    (∀ index type, term = .var index type → index ≤ Json.maxIndex) ∧
      (term.subTerms = [] ∨ args? = some term.subTerms) := by
  cases kind with
  | var =>
      obtain ⟨value, -, hrecord⟩ := Option.bind_eq_some_iff.mp hrecord
      obtain ⟨index, hindex, hrecord⟩ := Option.bind_eq_some_iff.mp hrecord
      obtain ⟨type, -, hterm⟩ := Option.bind_eq_some_iff.mp hrecord
      obtain rfl := Option.some.inj hterm
      refine ⟨?_, .inl rfl⟩
      rintro _ _ ⟨⟩
      exact Json.le_maxIndex_of_index? hindex
  | anon =>
      obtain rfl := Option.some.inj hrecord
      exact ⟨by simp, .inl rfl⟩
  | const =>
      obtain ⟨value, -, hrecord⟩ := Option.bind_eq_some_iff.mp hrecord
      obtain ⟨name, -, hrecord⟩ := Option.bind_eq_some_iff.mp hrecord
      obtain ⟨type, -, hterm⟩ := Option.bind_eq_some_iff.mp hrecord
      obtain rfl := Option.some.inj hterm
      exact ⟨by simp, .inl rfl⟩
  | expr | atom =>
      obtain ⟨value, -, hrecord⟩ := Option.bind_eq_some_iff.mp hrecord
      obtain ⟨name, -, hrecord⟩ := Option.bind_eq_some_iff.mp hrecord
      obtain ⟨args, hargs, hterm⟩ := Option.bind_eq_some_iff.mp hrecord
      obtain rfl := Option.some.inj hterm
      exact ⟨by simp, .inr hargs⟩

/-- The arguments of a term that is read are read. -/
theorem exists_item_of_ofJsonAt? {nested : Bool} {json : Json} {term : Term}
    (hread : ofJsonAt? nested json = some term) {arg : Term} (hmem : arg ∈ term.subTerms) :
    ∃ item, ofJsonAt? true item = some arg := by
  obtain ⟨kind, record, args?, hrecord, hargs⟩ := exists_record_of_ofJsonAt? hread
  rcases (ofRecord?_eq_some hrecord).2 with hnone | hsome
  · exact absurd hmem (by simp [hnone])
  · exact hargs _ hsome arg hmem

/-- The induction is on the term and not on the value: an array holds its tag and fields in
one list, and only some of its items are terms. -/
theorem hasWordIndices_of_ofJsonAt? {nested : Bool} {json : Json} {term : Term}
    (hread : ofJsonAt? nested json = some term) : term.HasWordIndices := by
  induction term using Term.induction generalizing nested json with
  | var index type =>
      obtain ⟨kind, record, args?, hrecord, -⟩ := exists_record_of_ofJsonAt? hread
      have hword := (ofRecord?_eq_some hrecord).1 index type rfl
      simpa [HasWordIndices, variableIndices] using hword
  | anon | const => simp [HasWordIndices, variableIndices]
  | expr _ args ih | atom _ args ih =>
      simp only [hasWordIndices_expr, hasWordIndices_atom]
      intro arg hmem
      obtain ⟨item, hitem⟩ := exists_item_of_ofJsonAt? hread hmem
      exact ih arg hmem hitem

/-! ### Writing -/

theorem forall₂_map_toJson {terms : List Term}
    (hterms : ∀ term ∈ terms, term.SpelledBy term.toJson) :
    List.Forall₂ SpelledBy terms (terms.map toJson) := by
  rwa [List.forall₂_map_right_iff, List.forall₂_same]

/-- What is written for a term spells it, its absent type by a field that is left out. -/
theorem spelledBy_toJson {term : Term} (hterm : term.HasWordIndices) :
    term.SpelledBy term.toJson := by
  induction term using Term.induction with
  | var index type =>
      have hword : index ≤ Json.maxIndex := hterm index (by simp [variableIndices])
      cases type with
      | none => exact .var rfl rfl hword (.missing rfl)
      | some type => exact .var rfl rfl hword (.text rfl)
  | anon => exact .anon rfl
  | const name type =>
      cases type with
      | none => exact .const rfl rfl (.missing rfl)
      | some type => exact .const rfl rfl (.text rfl)
  | expr functor args ih =>
      rw [hasWordIndices_expr] at hterm
      obtain ⟨hlength, hitems⟩ := List.forall₂_iff_zip.mp
        (forall₂_map_toJson fun arg hmem => ih arg hmem (hterm arg hmem))
      rw [toJson, toJsonEach_eq_map]
      exact .expr rfl rfl rfl hlength hitems
  | atom predicate args ih =>
      rw [hasWordIndices_atom] at hterm
      obtain ⟨hlength, hitems⟩ := List.forall₂_iff_zip.mp
        (forall₂_map_toJson fun arg hmem => ih arg hmem (hterm arg hmem))
      rw [toJson, toJsonEach_eq_map]
      exact .atom rfl rfl rfl hlength hitems

/-- The keys of what is written are those of the format, at any depth and whatever the term
is. -/
theorem isLaidOut_toJson (term : Term) : term.toJson.IsLaidOut layouts := by
  have htype : ∀ type, ∀ field ∈ typeField type, field.2.IsLaidOut layouts := by
    intro type
    cases type with
    | none => exact List.forall_mem_nil _
    | some type => exact List.forall_mem_singleton.mpr .string
  have hargs : ∀ {args : List Term}, (∀ arg ∈ args, arg.toJson.IsLaidOut layouts) →
      (Json.array (toJsonEach args)).IsLaidOut layouts := by
    intro args hlaidOut
    rw [toJsonEach_eq_map]
    exact .array (List.forall_mem_map.mpr hlaidOut)
  induction term using Term.induction with
  | var index type =>
      refine .object (by cases type <;> simp [typeField, layouts]) ?_
      exact List.forall_mem_cons.mpr ⟨.string, List.forall_mem_cons.mpr ⟨.integer, htype type⟩⟩
  | anon => exact .object (by simp [layouts]) (List.forall_mem_singleton.mpr .string)
  | const name type =>
      refine .object (by cases type <;> simp [typeField, layouts]) ?_
      exact List.forall_mem_cons.mpr ⟨.string, List.forall_mem_cons.mpr ⟨.string, htype type⟩⟩
  | expr _ args ih | atom _ args ih =>
      refine .object (by simp [layouts]) ?_
      exact List.forall_mem_cons.mpr ⟨.string, List.forall_mem_cons.mpr ⟨.string,
        List.forall_mem_singleton.mpr (hargs ih)⟩⟩

/-- Terms, whose indices have to fit into 64 bits to be written. -/
theorem codes : Json.Codes HasWordIndices SpelledBy layouts toJson ofJson? :=
  .of_spelledBy (fun hterm => hterm.ofJsonAt?_eq false) spelledBy_toJson
    hasWordIndices_of_ofJsonAt? isLaidOut_toJson

/-! ### Lists of terms -/

/-- An array that spells terms in their order. -/
inductive AllSpelledBy (terms : List Term) : Json → Prop
  | array {items} : List.Forall₂ SpelledBy terms items → AllSpelledBy terms (.array items)

/-- Lists of terms are read item by item, and an item that is no term spoils the list. -/
theorem AllSpelledBy.listOfJson?_eq {terms : List Term} {json : Json}
    (hterms : AllSpelledBy terms json) : listOfJson? json = some terms := by
  obtain ⟨hitems⟩ := hterms
  obtain ⟨hlength, hzip⟩ := List.forall₂_iff_zip.mp hitems
  exact ofArray?_of_zip hlength fun hmem => (hzip hmem).ofJsonAt?_eq false

theorem hasWordIndices_of_listOfJson? {json : Json} {terms : List Term}
    (hread : listOfJson? json = some terms) : ∀ term ∈ terms, term.HasWordIndices := by
  intro term hmem
  obtain ⟨item, hitem⟩ := exists_item_of_ofArray? hread term hmem
  exact hasWordIndices_of_ofJsonAt? hitem

theorem allSpelledBy_map_toJson {terms : List Term} (hterms : ∀ term ∈ terms, term.HasWordIndices) :
    AllSpelledBy terms (.array (terms.map toJson)) :=
  .array (forall₂_map_toJson fun term hmem => spelledBy_toJson (hterms term hmem))

end Term

end Posl
