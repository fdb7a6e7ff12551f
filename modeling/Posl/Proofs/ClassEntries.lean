import Posl.Proofs.Decomposition
import Posl.Proofs.NamedOperands

/-!
# Entries of the class list

An operand of a bound query adds an entry to the classes if the entry goes away with it, that
is, where a wildcard stands in its place.  Which operands do is decided by their places and
their form: the variable in front adds none, but the same variable further behind does, and so
does a variable that has no name.
-/

namespace Posl

/-- Whether the second list is the first one with one entry taken out. -/
def LosesEntry (classes remaining : List String) (entry : String) : Prop :=
  ∃ front back, classes = front ++ entry :: back ∧ remaining = front ++ back

/-- A list that loses an entry gets shorter. -/
theorem not_losesEntry_self (classes : List String) (entry : String) :
    ¬ LosesEntry classes classes entry := by
  rintro ⟨front, back, hclasses, hremaining⟩
  have hlength := congrArg List.length (hclasses.symm.trans hremaining)
  simp at hlength

/-- Wherever it is taken out, the entry that is missing is the same. -/
theorem losesEntry_append_iff {front back : List String} {entry lost : String} :
    LosesEntry (front ++ entry :: back) (front ++ back) lost ↔ lost = entry := by
  constructor
  · rintro ⟨before, after, hclasses, hremaining⟩
    have hcount := congrArg (List.count lost) hclasses
    have hothers := congrArg (List.count lost) hremaining
    by_contra hne
    simp only [List.count_append, List.count_cons_self,
      List.count_cons_of_ne (Ne.symm hne)] at hcount hothers
    omega
  · rintro rfl
    exact ⟨front, back, rfl, rfl⟩

theorem withoutReceiver_set {first : Term} (hfirst : ∀ index type, first ≠ .var index type)
    (rest : List Term) (place : Nat) :
    withoutReceiver ((first :: rest).set place .anon) = (first :: rest).set place .anon := by
  cases place with
  | zero => rfl
  | succ place => exact withoutReceiver_of_ne_var hfirst _

section

variable {names : List String}

theorem classTexts_append (front back : List Term) :
    classTexts names (front ++ back) = classTexts names front ++ classTexts names back := by
  simp [classTexts]

theorem classTexts_anon_cons (rest : List Term) :
    classTexts names (.anon :: rest) = classTexts names rest := rfl

theorem classTexts_cons_of_ne {term : Term} (hterm : term ≠ .anon) (rest : List Term) :
    classTexts names (term :: rest) = term.bare names :: classTexts names rest := by
  simp [classTexts, hterm]

/-- A class that is given up for a wildcard takes its own text along. -/
theorem losesEntry_set_iff {terms : List Term} {place : Nat} {term : Term}
    (hterm : terms[place]? = some term) (entry : String) :
    LosesEntry (classTexts names terms) (classTexts names (terms.set place .anon)) entry ↔
      term ≠ .anon ∧ entry = term.bare names := by
  obtain ⟨hplace, hget⟩ := List.getElem?_eq_some_iff.mp hterm
  obtain ⟨front, back, hterms, -, hset⟩ :=
    @List.exists_of_set Term place .anon terms hplace
  rw [hset, hterms, hget, classTexts_append, classTexts_append, classTexts_anon_cons]
  by_cases hanonymous : term = .anon
  · subst hanonymous
    rw [classTexts_anon_cons]
    exact iff_of_false (not_losesEntry_self _ _) fun hclass => hclass.1 rfl
  · rw [classTexts_cons_of_ne hanonymous, losesEntry_append_iff]
    exact ⟨fun hentry => ⟨hanonymous, hentry⟩, fun hclass => hclass.2⟩

end

namespace Term

variable {names : List String}

theorem operand_eq_variable_iff {term : Term} {name : String} :
    term.operand names = .variable name ↔
      ∃ index type, term = .var index type ∧ names[index]? = some name := by
  cases term with
  | var index type => cases hname : names[index]? <;> simp [operand, hname]
  | anon | const | expr | atom => simp [operand]

theorem operand_eq_anonymous_iff {term : Term} :
    term.operand names = .anonymous ↔
      term = .anon ∨ ∃ index type, term = .var index type ∧ names[index]? = none := by
  cases term with
  | var index type =>
      cases hname : names[index]? with
      | none => exact iff_of_true (by simp [operand, hname]) (.inr ⟨index, type, rfl, hname⟩)
      | some name =>
          refine iff_of_false (by simp [operand, hname]) ?_
          rintro (hanon | ⟨_, _, ⟨⟩, hnone⟩)
          · cases hanon
          · simp [hname] at hnone
  | anon | const | expr | atom => simp [operand]

theorem bare_var_of_named {index : Nat} {type : Option String} {name : String}
    (hname : names[index]? = some name) :
    (var index type).bare names = .ofList (name.toList ++ typeSuffix type) := by
  simp [bare, chars, variableName, hname]

theorem bare_var_of_unnamed {index : Nat} {type : Option String} (hname : names[index]? = none) :
    (var index type).bare names =
      .ofList ('_' :: ((toString index).toList ++ typeSuffix type)) := by
  simp [bare, chars, variableName, hname]

end Term

namespace QueryAtom

/-- The query with a wildcard in place of an operand. -/
def giveUp (query : QueryAtom) (place : Nat) : QueryAtom :=
  { query with args := query.args.set (place + 1) .anon }

/-- Whether an operand of a bound query adds an entry to the classes: they lose it where a
wildcard stands in place of the operand. -/
def AddsClass (query : QueryAtom) (place : Nat) (entry : String) : Prop :=
  ∃ request remaining, query.bound = .ok request ∧ (query.giveUp place).bound = .ok remaining ∧
    LosesEntry request.classes remaining.classes entry

@[simp]
theorem variableNames_giveUp (query : QueryAtom) (place : Nat) :
    (query.giveUp place).variableNames = query.variableNames := rfl

theorem operands_giveUp (query : QueryAtom) (place : Nat) :
    (query.giveUp place).operands = query.operands.set place .anon := by
  rcases query.args_eq_nil_or with hnil | ⟨oid, hargs⟩
  · simp [giveUp, operands, hnil]
  · rw [giveUp, operands, hargs]
    rfl

section

variable {query : QueryAtom} (hfamily : query.predicate.family = .bound)

include hfamily

/-- The classes of a bound query are all operands but for wildcards and a variable in
front, whether it has a name or not. -/
theorem exists_bound {first : Term} {rest : List Term}
    (hoperands : query.operands = first :: rest) :
    ∃ request, query.bound = .ok request ∧
      request.classes = classTexts query.variableNames (withoutReceiver query.operands) ∧
      ∀ name, request.resultVariable = some name ↔
        first.operand query.variableNames = .variable name := by
  obtain ⟨oid, hargs⟩ := exists_args_eq_cons hoperands
  refine ⟨_, bound_eq hfamily hargs, ?_⟩
  rw [hoperands]
  cases first with
  | var index type =>
      rw [Term.operand]
      cases query.variableNames[index]? <;> simp [withoutReceiver]
  | anon => simp [Term.operand, withoutReceiver, classTexts_anon_cons]
  | const | expr | atom => simp [Term.operand, withoutReceiver]

/-- A bound query with an operand never fails, and its classes are the texts of what is no
receiver. -/
theorem bound_classes {place : Nat} (hplace : place < query.operands.length) :
    ∃ request, query.bound = .ok request ∧
      request.classes = classTexts query.variableNames (withoutReceiver query.operands) := by
  obtain ⟨first, rest, hoperands⟩ :=
    List.exists_cons_of_ne_nil (List.ne_nil_of_length_pos (Nat.zero_lt_of_lt hplace))
  obtain ⟨request, hbound, hclasses, -⟩ := exists_bound hfamily hoperands
  exact ⟨request, hbound, hclasses⟩

theorem addsClass_iff_losesEntry {place : Nat} (hplace : place < query.operands.length)
    (entry : String) :
    query.AddsClass place entry ↔
      LosesEntry (classTexts query.variableNames (withoutReceiver query.operands))
        (classTexts query.variableNames (withoutReceiver (query.operands.set place .anon)))
        entry := by
  have hother : place < (query.giveUp place).operands.length := by
    rwa [operands_giveUp, List.length_set]
  obtain ⟨request, hbound, hclasses⟩ := bound_classes hfamily hplace
  obtain ⟨remaining, hremaining, hothers⟩ := @bound_classes (query.giveUp place) hfamily _ hother
  rw [operands_giveUp, variableNames_giveUp] at hothers
  rw [← hclasses, ← hothers]
  constructor
  · rintro ⟨_, _, hrequest, hrest, hloses⟩
    obtain rfl := Except.ok.inj (hbound.symm.trans hrequest)
    obtain rfl := Except.ok.inj (hremaining.symm.trans hrest)
    exact hloses
  · exact fun hloses => ⟨request, remaining, hbound, hremaining, hloses⟩

/-- The operand at a place is a class unless it is a wildcard or a variable in front. -/
theorem addsClass_iff {place : Nat} {operand : Term}
    (hoperand : query.operands[place]? = some operand) (entry : String) :
    query.AddsClass place entry ↔
      operand ≠ .anon ∧ (place = 0 → ∀ index type, operand ≠ .var index type) ∧
        entry = operand.bare query.variableNames := by
  obtain ⟨hplace, -⟩ := List.getElem?_eq_some_iff.mp hoperand
  rw [addsClass_iff_losesEntry hfamily hplace]
  obtain ⟨first, rest, hoperands⟩ :=
    List.exists_cons_of_ne_nil (List.ne_nil_of_length_pos (Nat.zero_lt_of_lt hplace))
  rw [hoperands] at hoperand ⊢
  by_cases hreceiver : ∀ index type, first ≠ .var index type
  · have hclass := @losesEntry_set_iff query.variableNames _ place operand hoperand entry
    have hnot : place = 0 → ∀ index type, operand ≠ .var index type := by
      rintro rfl
      exact Option.some.inj hoperand ▸ hreceiver
    rw [withoutReceiver_of_ne_var hreceiver, withoutReceiver_set hreceiver, hclass]
    exact and_congr_right fun _ => (and_iff_right hnot).symm
  · obtain ⟨index, type, rfl⟩ : ∃ index type, first = .var index type := by simpa using hreceiver
    cases place with
    | zero =>
        obtain rfl := Option.some.inj hoperand
        exact iff_of_false (not_losesEntry_self _ _) fun hclass => hclass.2.1 rfl index type rfl
    | succ place =>
        have hloses := @losesEntry_set_iff query.variableNames rest place operand hoperand entry
        simpa [withoutReceiver] using hloses

end

/-- The query behind a request for a bound. -/
theorem exists_query_of_parse {text : String} {request : BoundQuery}
    (hparse : TypeQuery.parse text = .ok (.lub request) ∨
      TypeQuery.parse text = .ok (.glb request)) :
    ∃ query, QueryAtom.parse text = .ok query ∧ query.predicate.family = .bound ∧
      query.bound = .ok request := by
  rw [TypeQuery.parse] at hparse
  cases hquery : QueryAtom.parse text with
  | error error => simp [hquery, bind, Except.bind] at hparse
  | ok query =>
      rw [hquery] at hparse
      change query.decompose = _ ∨ query.decompose = _ at hparse
      rw [decompose] at hparse
      refine ⟨query, rfl, ?_⟩
      cases hpredicate : query.predicate with
      | lub | glb => simpa [hpredicate, Except.map_eq_ok_iff, TypePredicate.family] using hparse
      | subsumes | subsumesPlus => simp [hpredicate, Except.map_eq_ok_iff] at hparse

/-- The variable that receives the bound adds no class where it stands in front.  Repeated
further behind, with a type or without, it is listed as a class each time. -/
theorem resultVariable_entries {text name : String} {request : BoundQuery}
    (hparse : TypeQuery.parse text = .ok (.lub request) ∨
      TypeQuery.parse text = .ok (.glb request))
    (hresult : request.resultVariable = some name) :
    ∃ query, QueryAtom.parse text = .ok query ∧ query.bound = .ok request ∧
      (∃ index type, query.operands[0]? = some (.var index type) ∧
        query.variableNames[index]? = some name) ∧
      ∀ place index type, query.operands[place]? = some (.var index type) →
        query.variableNames[index]? = some name → ∀ entry,
          query.AddsClass place entry ↔
            place ≠ 0 ∧ entry = .ofList (name.toList ++ Term.typeSuffix type) := by
  obtain ⟨query, hquery, hfamily, hbound⟩ := exists_query_of_parse hparse
  refine ⟨query, hquery, hbound, ?_, ?_⟩
  · cases hoperands : query.operands with
    | nil =>
        rw [bound_of_operands_nil hfamily hoperands] at hbound
        exact absurd hbound (by simp)
    | cons first rest =>
        obtain ⟨found, hfound, -, hreceives⟩ := exists_bound hfamily hoperands
        obtain rfl := Except.ok.inj (hfound.symm.trans hbound)
        obtain ⟨index, type, rfl, hname⟩ :=
          Term.operand_eq_variable_iff.mp ((hreceives name).mp hresult)
        exact ⟨index, type, rfl, hname⟩
  · intro place index type hoperand hname entry
    rw [addsClass_iff hfamily hoperand, Term.bare_var_of_named hname]
    simp

/-- A variable that is repeated with another type, and a constant that has its name. -/
theorem resultVariable_entries_repeated :
    let request : BoundQuery := { resultVariable := some "X", classes := ["X", "f(X)", "X:U"] }
    TypeQuery.parse "glb(?X:T, X, f(?X), _, ?X:U)" = .ok (.glb request) ∧
      ∃ query, QueryAtom.parse "glb(?X:T, X, f(?X), _, ?X:U)" = .ok query ∧
        query.AddsClass 4 "X:U" ∧ ∀ entry, ¬ query.AddsClass 0 entry := by
  intro request
  have hparse : TypeQuery.parse "glb(?X:T, X, f(?X), _, ?X:U)" = .ok (.glb request) := by
    decide +kernel
  obtain ⟨query, hquery, -, -, hentries⟩ := resultVariable_entries (.inr hparse) rfl
  let written : QueryAtom :=
    { predicate := .glb
      args := [.anon, .var 0 (some "T"), .const "X" none, .expr "f" [.var 0 none], .anon,
        .var 0 (some "U")]
      variableNames := ["X"] }
  have hwritten : QueryAtom.parse "glb(?X:T, X, f(?X), _, ?X:U)" = .ok written := by
    decide +kernel
  obtain rfl := Except.ok.inj (hquery.symm.trans hwritten)
  exact ⟨hparse, written, hwritten, (hentries 4 0 _ rfl rfl "X:U").mpr ⟨by decide, rfl⟩,
    fun entry hadds => ((hentries 0 0 _ rfl rfl entry).mp hadds).1 rfl⟩

/-- The variable that receives the bound is one of the classes to combine. -/
theorem resultVariable_among_classes :
    let query : QueryAtom :=
      { predicate := .lub
        args := [.anon, .var 0 none, .var 0 none, .const "a" none]
        variableNames := ["X"] }
    TypeQuery.parse "lub(?X, ?X, a)" =
        .ok (.lub { resultVariable := some "X", classes := ["X", "a"] }) ∧
      QueryAtom.parse "lub(?X, ?X, a)" = .ok query ∧
      query.operands[1]? = some (.var 0 none) ∧ query.variableNames[0]? = some "X" ∧
      query.AddsClass 1 "X" := by
  intro query
  refine ⟨by decide +kernel, by decide +kernel, rfl, rfl, ?_⟩
  exact (addsClass_iff rfl rfl "X").mpr ⟨by decide, fun hfront => absurd hfront (by decide), rfl⟩

/-- An anonymous operand, be it a wildcard or a variable without a name, cannot be one of
two classes, and takes no bound.  Among the classes of a bound it adds none if it is a
wildcard or stands in front, but a variable without a name adds one further behind. -/
theorem anonymous_operands (query : QueryAtom) :
    (query.predicate.family = .subsumption → ∀ oid superTerm subTerm,
      query.args = [oid, superTerm, subTerm] →
      superTerm.operand query.variableNames = .anonymous ∨
        subTerm.operand query.variableNames = .anonymous →
      query.subsumption = .error (.anonymousOperand query.predicate)) ∧
    (query.predicate.family = .bound →
      (∀ operand, query.operands[0]? = some operand →
        operand.operand query.variableNames = .anonymous →
        ∃ request, query.bound = .ok request ∧ request.resultVariable = none) ∧
      ∀ place operand, query.operands[place]? = some operand →
        operand.operand query.variableNames = .anonymous → ∀ entry,
          query.AddsClass place entry ↔
            place ≠ 0 ∧ ∃ index type, operand = .var index type ∧
              entry = .ofList ('_' :: ((toString index).toList ++ Term.typeSuffix type))) := by
  refine ⟨fun hfamily oid superTerm subTerm hargs hanonymous => ?_, fun hfamily => ⟨?_, ?_⟩⟩
  · exact subsumption_of_anonymous hfamily hargs hanonymous
  · intro first hfirst hanonymous
    obtain ⟨rest, hoperands⟩ := List.head?_eq_some_iff.mp (List.head?_eq_getElem? ▸ hfirst)
    obtain ⟨request, hbound, -, hreceives⟩ := exists_bound hfamily hoperands
    refine ⟨request, hbound, Option.eq_none_iff_forall_ne_some.mpr fun name hresult => ?_⟩
    rw [hreceives, hanonymous] at hresult
    cases hresult
  · intro place operand hoperand hanonymous entry
    rw [addsClass_iff hfamily hoperand]
    rcases Term.operand_eq_anonymous_iff.mp hanonymous with rfl | ⟨index, type, rfl, hname⟩
    · simp
    · rw [Term.bare_var_of_unnamed hname]
      simp

/-- Variables outside of the table, in a relation, in front of a bound and among its
classes, where only the last of them adds an entry. -/
theorem anonymous_operands_mixed :
    let relation : QueryAtom :=
      { predicate := .subsumes
        args := [.anon, .const "a" none, .var 3 none]
        variableNames := ["X"] }
    let query : QueryAtom :=
      { predicate := .glb
        args := [.anon, .var 7 none, .const "a" none, .anon, .var 3 (some "T")]
        variableNames := ["X"] }
    relation.subsumption = .error (.anonymousOperand .subsumes) ∧
      (∃ request, query.bound = .ok request ∧ request.resultVariable = none) ∧
      (∀ entry, ¬ query.AddsClass 0 entry) ∧ (∀ entry, ¬ query.AddsClass 2 entry) ∧
      query.AddsClass 3 "_3:T" := by
  intro relation query
  have hsubsumption := (anonymous_operands relation).1 rfl _ _ _ rfl (.inr rfl)
  obtain ⟨hreceives, hentries⟩ := (anonymous_operands query).2 rfl
  refine ⟨hsubsumption, hreceives _ rfl rfl, fun entry hadds => ?_, fun entry hadds => ?_, ?_⟩
  · exact ((hentries 0 _ rfl rfl entry).mp hadds).1 rfl
  · obtain ⟨-, _, _, hvar, -⟩ := (hentries 2 _ rfl rfl entry).mp hadds
    cases hvar
  · exact (hentries 3 _ rfl rfl "_3:T").mpr ⟨by decide, 3, some "T", rfl, by decide +kernel⟩

/-- A variable without a name is an anonymous operand and all the same a class. -/
theorem unnamed_variable_among_classes :
    let query : QueryAtom :=
      { predicate := .lub, args := [.anon, .const "a" none, .var 5 none], variableNames := [] }
    query.operands[1]? = some (.var 5 none) ∧
      (Term.var 5 none).operand query.variableNames = .anonymous ∧
      query.bound = .ok { resultVariable := none, classes := ["a", "_5"] } ∧
      query.AddsClass 1 "_5" := by
  intro query
  refine ⟨rfl, rfl, by decide +kernel, ?_⟩
  exact (addsClass_iff rfl rfl "_5").mpr ⟨by decide, fun hfront => absurd hfront (by decide),
    by decide +kernel⟩

end QueryAtom

end Posl
