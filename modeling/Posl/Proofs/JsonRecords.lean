import Posl.Proofs.JsonForms

/-!
# Clauses and queries in JSON

The records that hold terms and texts: clauses, queries, and the requests that queries
make.  With the terms that they hold they are read from whatever spells them, and from
what is written for them.
-/

namespace Posl

namespace Json

/-- An object is a record as it stands, whatever the names of the fields. -/
theorem record?_of_get? {json value : Json} {key : String} (hvalue : json.get? key = some value)
    (fieldNames : List String) : json.record? fieldNames = some json := by
  obtain ⟨fields, rfl⟩ := exists_fields_of_get? hvalue
  rfl

/-- The tag may stand anywhere among the fields, and the other fields are read with it left
in. -/
theorem untag?_of_get? {json tag : Json} {key : String} (htag : json.get? key = some tag) :
    json.untag? key = some (tag, json) := by
  obtain ⟨fields, rfl⟩ := exists_fields_of_get? htag
  change fields.lookup key = some tag at htag
  rw [untag?, htag]
  rfl

end Json

namespace Clause

def HasWordIndices (clause : Clause) : Prop := ∀ atom ∈ clause.atoms, atom.HasWordIndices

structure SpelledBy (clause : Clause) (json : Json) : Prop where
  atoms : json.Holds "atoms" (Term.AllSpelledBy clause.atoms)
  variableNames : json.get? "variable_names" = some (.ofStrings clause.variableNames)

def layouts : List (List String) := ["atoms", "variable_names"] :: Term.layouts

/-- A clause is read from its two fields, and any others are passed over. -/
theorem SpelledBy.ofJson?_eq {clause : Clause} {json : Json} (hclause : clause.SpelledBy json) :
    ofJson? json = some clause := by
  obtain ⟨value, hvalue, hatoms⟩ := hclause.atoms
  rw [ofJson?, Json.record?_of_get? hvalue]
  simp [hvalue, hatoms.listOfJson?_eq, hclause.variableNames, Json.strings?_ofStrings]

theorem hasWordIndices_of_ofJson? {json : Json} {clause : Clause}
    (hread : ofJson? json = some clause) : clause.HasWordIndices := by
  obtain ⟨record, -, hread⟩ := Option.bind_eq_some_iff.mp hread
  obtain ⟨value, -, hread⟩ := Option.bind_eq_some_iff.mp hread
  obtain ⟨atoms, hatoms, hread⟩ := Option.bind_eq_some_iff.mp hread
  obtain ⟨names, -, hread⟩ := Option.bind_eq_some_iff.mp hread
  obtain ⟨variableNames, -, hclause⟩ := Option.bind_eq_some_iff.mp hread
  obtain rfl := Option.some.inj hclause
  exact Term.hasWordIndices_of_listOfJson? hatoms

theorem spelledBy_toJson {clause : Clause} (hclause : clause.HasWordIndices) :
    clause.SpelledBy clause.toJson where
  atoms := ⟨_, rfl, Term.allSpelledBy_map_toJson hclause⟩
  variableNames := rfl

theorem isLaidOut_toJson (clause : Clause) : clause.toJson.IsLaidOut layouts := by
  have hatoms : ∀ atom ∈ clause.atoms, atom.toJson.IsLaidOut layouts :=
    fun atom _ => (Term.isLaidOut_toJson atom).mono (List.subset_cons_self _ _)
  refine .object List.mem_cons_self (List.forall_mem_cons.mpr ⟨?_, ?_⟩)
  · exact .array (List.forall_mem_map.mpr hatoms)
  · exact List.forall_mem_singleton.mpr (Json.isLaidOut_ofStrings _ _)

/-- Clauses, by the law for terms and the names beside them. -/
theorem codes : Json.Codes HasWordIndices SpelledBy layouts toJson ofJson? :=
  .of_spelledBy SpelledBy.ofJson?_eq spelledBy_toJson hasWordIndices_of_ofJson? isLaidOut_toJson

end Clause

namespace TypePredicate

/-- A predicate is written by its name, which leads back to it. -/
theorem ofName?_name (predicate : TypePredicate) : ofName? predicate.name = some predicate := by
  cases predicate <;> decide

end TypePredicate

namespace QueryAtom

def HasWordIndices (query : QueryAtom) : Prop := ∀ arg ∈ query.args, arg.HasWordIndices

structure SpelledBy (query : QueryAtom) (json : Json) : Prop where
  predicate : json.get? "predicate" = some (.string query.predicate.name)
  args : json.Holds "operands" (Term.AllSpelledBy query.args)
  variableNames : json.get? "variable_names" = some (.ofStrings query.variableNames)

def layouts : List (List String) := ["predicate", "operands", "variable_names"] :: Term.layouts

theorem SpelledBy.ofJson?_eq {query : QueryAtom} {json : Json} (hquery : query.SpelledBy json) :
    ofJson? json = some query := by
  obtain ⟨value, hvalue, hargs⟩ := hquery.args
  have hpredicate : TypePredicate.ofJson? (.string query.predicate.name) = some query.predicate :=
    query.predicate.ofName?_name
  rw [ofJson?, Json.record?_of_get? hvalue]
  simp [hquery.predicate, hpredicate, hvalue, hargs.listOfJson?_eq, hquery.variableNames,
    Json.strings?_ofStrings]

theorem hasWordIndices_of_ofJson? {json : Json} {query : QueryAtom}
    (hread : ofJson? json = some query) : query.HasWordIndices := by
  obtain ⟨record, -, hread⟩ := Option.bind_eq_some_iff.mp hread
  obtain ⟨name, -, hread⟩ := Option.bind_eq_some_iff.mp hread
  obtain ⟨predicate, -, hread⟩ := Option.bind_eq_some_iff.mp hread
  obtain ⟨value, -, hread⟩ := Option.bind_eq_some_iff.mp hread
  obtain ⟨args, hargs, hread⟩ := Option.bind_eq_some_iff.mp hread
  obtain ⟨names, -, hread⟩ := Option.bind_eq_some_iff.mp hread
  obtain ⟨variableNames, -, hquery⟩ := Option.bind_eq_some_iff.mp hread
  obtain rfl := Option.some.inj hquery
  exact Term.hasWordIndices_of_listOfJson? hargs

theorem spelledBy_toJson {query : QueryAtom} (hquery : query.HasWordIndices) :
    query.SpelledBy query.toJson where
  predicate := rfl
  args := ⟨_, rfl, Term.allSpelledBy_map_toJson hquery⟩
  variableNames := rfl

theorem isLaidOut_toJson (query : QueryAtom) : query.toJson.IsLaidOut layouts := by
  have hargs : ∀ arg ∈ query.args, arg.toJson.IsLaidOut layouts :=
    fun arg _ => (Term.isLaidOut_toJson arg).mono (List.subset_cons_self _ _)
  refine .object List.mem_cons_self (List.forall_mem_cons.mpr ⟨.string, ?_⟩)
  refine List.forall_mem_cons.mpr ⟨.array (List.forall_mem_map.mpr hargs), ?_⟩
  exact List.forall_mem_singleton.mpr (Json.isLaidOut_ofStrings _ _)

theorem codes : Json.Codes HasWordIndices SpelledBy layouts toJson ofJson? :=
  .of_spelledBy SpelledBy.ofJson?_eq spelledBy_toJson hasWordIndices_of_ofJson? isLaidOut_toJson

end QueryAtom

namespace ClassRef

/-- The objects that spell a class: its text stands beside the tag. -/
structure SpelledBy (ref : ClassRef) (json : Json) : Prop where
  kind : json.get? "kind" = some (.string ref.kind)
  name : json.get? "name" = some (.string ref.name)

def layouts : List (List String) := [["kind", "name"]]

/-- A class is read from its tag and its text, inside another value as outside. -/
theorem SpelledBy.ofJsonAt?_eq {ref : ClassRef} {json : Json} (href : ref.SpelledBy json)
    (nested : Bool) : ofJsonAt? nested json = some ref := by
  obtain ⟨fields, rfl⟩ := Json.exists_fields_of_get? href.kind
  have hkind : fields.lookup "kind" = some (.string ref.kind) := href.kind
  have hname : fields.lookup "name" = some (.string ref.name) := href.name
  rw [ofJsonAt?, hkind, hname]
  cases ref <;> rfl

theorem spelledBy_toJson (ref : ClassRef) : ref.SpelledBy ref.toJson where
  kind := rfl
  name := rfl

theorem isLaidOut_toJson (ref : ClassRef) : ref.toJson.IsLaidOut layouts := by
  refine .object List.mem_cons_self (List.forall_mem_cons.mpr ⟨.string, ?_⟩)
  exact List.forall_mem_singleton.mpr .string

theorem codes : Json.Codes (fun _ => True) SpelledBy layouts toJson ofJson? :=
  .of_spelledBy (fun href => href.ofJsonAt?_eq false) (fun _ => spelledBy_toJson _)
    (fun _ => trivial) isLaidOut_toJson

end ClassRef

/-! ## Requests -/

namespace BoundQuery

/-- The objects that have the fields of a bound among theirs. -/
structure SpelledBy (query : BoundQuery) (json : Json) : Prop where
  resultVariable : json.HoldsOptional "result_var" query.resultVariable
  classes : json.get? "class_names" = some (.ofStrings query.classes)

theorem SpelledBy.ofJson?_eq {query : BoundQuery} {json : Json} (hquery : query.SpelledBy json) :
    ofJson? json = some query := by
  rw [ofJson?, Json.record?_of_get? hquery.classes]
  simp [hquery.resultVariable.optionalString?_eq, hquery.classes, Json.strings?_ofStrings]

/-- The fields of a bound stand beside any tag, so that they can be used for both of its
predicates. -/
theorem spelledBy_fields (query : BoundQuery) (tag : Json) :
    query.SpelledBy (.object (("predicate", tag) :: query.fields)) where
  resultVariable := by
    obtain ⟨resultVariable, classes⟩ := query
    cases resultVariable with
    | none => exact .null rfl
    | some name => exact .text rfl
  classes := rfl

end BoundQuery

namespace SubsumptionQuery

/-- The objects that have the fields of a subsumption among theirs. -/
structure SpelledBy (query : SubsumptionQuery) (json : Json) : Prop where
  superType : json.Holds "super_type" query.superType.SpelledBy
  subType : json.Holds "sub_type" query.subType.SpelledBy

theorem SpelledBy.ofJson?_eq {query : SubsumptionQuery} {json : Json}
    (hquery : query.SpelledBy json) : ofJson? json = some query := by
  obtain ⟨superValue, hsuperValue, hsuper⟩ := hquery.superType
  obtain ⟨subValue, hsubValue, hsub⟩ := hquery.subType
  rw [ofJson?, Json.record?_of_get? hsuperValue]
  simp [hsuperValue, hsubValue, hsuper.ofJsonAt?_eq, hsub.ofJsonAt?_eq]

/-- The fields of a subsumption stand beside any tag too. -/
theorem spelledBy_fields (query : SubsumptionQuery) (tag : Json) :
    query.SpelledBy (.object (("predicate", tag) :: query.fields)) where
  superType := ⟨_, rfl, query.superType.spelledBy_toJson⟩
  subType := ⟨_, rfl, query.subType.spelledBy_toJson⟩

end SubsumptionQuery

namespace TypeQuery

/-- The fields of a request, its tag apart, stand in an object. -/
def HasFieldsIn : TypeQuery → Json → Prop
  | .lub query | .glb query => query.SpelledBy
  | .subsumes query | .subsumesPlus query => query.SpelledBy

/-- The objects that spell a request: the predicate is the tag, and the fields stand
beside it. -/
structure SpelledBy (query : TypeQuery) (json : Json) : Prop where
  predicate : json.get? "predicate" = some (.string query.predicate.name)
  fields : query.HasFieldsIn json

def layouts : List (List String) :=
  ["predicate", "result_var", "class_names"] :: ["predicate", "super_type", "sub_type"] ::
    ClassRef.layouts

/-- The tag decides which fields are looked for. -/
theorem SpelledBy.ofJson?_eq {query : TypeQuery} {json : Json} (hquery : query.SpelledBy json) :
    ofJson? json = some query := by
  rw [ofJson?, Json.untag?_of_get? hquery.predicate]
  change (TypePredicate.ofName? query.predicate.name).bind _ = _
  rw [TypePredicate.ofName?_name]
  have hfields := hquery.fields
  cases query with
  | lub query | glb query | subsumes query | subsumesPlus query =>
      change (_ : Option _).bind _ = _
      rw [hfields.ofJson?_eq]
      rfl

theorem spelledBy_toJson (query : TypeQuery) : query.SpelledBy query.toJson where
  predicate := rfl
  fields := by
    cases query with
    | lub query | glb query | subsumes query | subsumesPlus query =>
        exact query.spelledBy_fields _

theorem isLaidOut_toJson (query : TypeQuery) : query.toJson.IsLaidOut layouts := by
  have hclass : ∀ ref : ClassRef, ref.toJson.IsLaidOut layouts := by
    intro ref
    exact ref.isLaidOut_toJson.mono (List.subset_append_right
      [["predicate", "result_var", "class_names"], ["predicate", "super_type", "sub_type"]] _)
  cases query with
  | lub query | glb query =>
      refine .object (by simp [layouts, fields, BoundQuery.fields]) ?_
      refine List.forall_mem_cons.mpr ⟨.string, List.forall_mem_cons.mpr ⟨?_, ?_⟩⟩
      · exact Json.isLaidOut_ofString? _ _
      · exact List.forall_mem_singleton.mpr (Json.isLaidOut_ofStrings _ _)
  | subsumes query | subsumesPlus query =>
      refine .object (by simp [layouts, fields, SubsumptionQuery.fields]) ?_
      refine List.forall_mem_cons.mpr ⟨.string, List.forall_mem_cons.mpr ⟨hclass _, ?_⟩⟩
      exact List.forall_mem_singleton.mpr (hclass _)

/-- Requests, by the laws for their fields under the four tags. -/
theorem codes : Json.Codes (fun _ => True) SpelledBy layouts toJson ofJson? :=
  .of_spelledBy SpelledBy.ofJson?_eq (fun _ => spelledBy_toJson _) (fun _ => trivial)
    isLaidOut_toJson

end TypeQuery

/-! ## All values -/

namespace Json

/-- Terms, clauses, queries, classes and requests are read from whatever spells them.
What is written for them is read back, if all indices fit a word, as they do in values
that were read; and it has no fields besides those of its format. -/
theorem values_round_trip :
    Codes Term.HasWordIndices Term.SpelledBy Term.layouts Term.toJson Term.ofJson? ∧
      Codes Clause.HasWordIndices Clause.SpelledBy Clause.layouts Clause.toJson Clause.ofJson? ∧
      Codes QueryAtom.HasWordIndices QueryAtom.SpelledBy QueryAtom.layouts QueryAtom.toJson
        QueryAtom.ofJson? ∧
      Codes (fun _ => True) ClassRef.SpelledBy ClassRef.layouts ClassRef.toJson ClassRef.ofJson? ∧
      Codes (fun _ => True) TypeQuery.SpelledBy TypeQuery.layouts TypeQuery.toJson
        TypeQuery.ofJson? :=
  ⟨Term.codes, Clause.codes, QueryAtom.codes, ClassRef.codes, TypeQuery.codes⟩

/-- Fields out of order, a type that is null, a result variable that is missing, and
fields that no format has: all is read, and read alike from what is written. -/
theorem values_round_trip_disordered :
    let term := Term.expr "f" [.var 0 none, .anon]
    let termJson := Json.object [
      ("args", .array [.object [("ty", .null), ("index", .integer 0), ("kind", .string "var")],
        .object [("note", .bool true), ("kind", .string "anon")]]),
      ("kind", .string "expr"), ("functor", .string "f")]
    let query := TypeQuery.lub { resultVariable := none, classes := ["a"] }
    let queryJson := Json.object [("class_names", .array [.string "a"]), ("note", .null),
      ("predicate", .string "lub")]
    Term.ofJson? termJson = some term ∧ Term.ofJson? term.toJson = some term ∧
      TypeQuery.ofJson? queryJson = some query ∧ TypeQuery.ofJson? query.toJson = some query := by
  intro term termJson query queryJson
  obtain ⟨hterm, -, -, -, hquery⟩ := values_round_trip
  have htermSpelled : term.SpelledBy termJson := by
    refine .expr rfl rfl rfl rfl fun hmem => ?_
    obtain ⟨rfl, rfl⟩ | ⟨rfl, rfl⟩ := by simpa using hmem
    · exact .var rfl rfl (Nat.zero_le _) (.null rfl)
    · exact .anon rfl
  have htermRead := hterm.read_of_spelledBy term termJson htermSpelled
  have hqueryRead := hquery.read_of_spelledBy query queryJson ⟨rfl, .missing rfl, rfl⟩
  exact ⟨htermRead, hterm.read_write_of_read _ _ htermRead, hqueryRead,
    hquery.read_write _ trivial⟩

end Json

end Posl
