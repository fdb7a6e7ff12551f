import Posl.Proofs.ReadClauses
import Posl.TypeQuery

/-!
# What a type query is decided to be

Which texts make a request, which request that is, and what is wrong with the
other texts.  A request has to meet a row of conditions, and the error is that of
the first one in the row that does not hold.
-/

namespace Posl

/-! ## Predicates by name -/

namespace TypePredicate

/-- A name calls a predicate in any case of its letters. -/
def IsCalledBy (predicate : TypePredicate) (symbol : String) : Prop :=
  equalIgnoringCase predicate.name symbol

theorem mem_all (predicate : TypePredicate) : predicate ∈ all := by
  cases predicate <;> decide

/-- The names differ by more than the case of their letters. -/
theorem eq_of_foldCase_name {left right : TypePredicate}
    (hname : foldCase left.name = foldCase right.name) : left = right := by
  revert hname
  cases left <;> cases right <;> decide

theorem IsCalledBy.unique {left right : TypePredicate} {symbol : String}
    (hleft : left.IsCalledBy symbol) (hright : right.IsCalledBy symbol) : left = right :=
  eq_of_foldCase_name ((beq_iff_eq.mp hleft).trans (beq_iff_eq.mp hright).symm)

/-- A predicate is found by any spelling of its name. -/
theorem ofSymbol?_of_isCalledBy {predicate : TypePredicate} {symbol : String}
    (hcalled : predicate.IsCalledBy symbol) : ofSymbol? symbol = some predicate := by
  cases hfound : ofSymbol? symbol with
  | none => exact absurd hcalled (List.find?_eq_none.mp hfound predicate predicate.mem_all)
  | some found =>
      have hother := List.find?_some hfound
      rw [IsCalledBy.unique hother hcalled]

theorem ofSymbol?_eq_none {symbol : String} (hnone : ∀ predicate : TypePredicate,
    ¬ predicate.IsCalledBy symbol) : ofSymbol? symbol = none :=
  List.find?_eq_none.mpr fun predicate _ => hnone predicate

end TypePredicate

/-! ## Operands -/

namespace Term

/-- A term that is no variable, named or anonymous. -/
def IsLiteral (term : Term) : Prop := (∀ index type, term ≠ .var index type) ∧ term ≠ .anon

/-- A term that is no variable outside the table. -/
def IsNamed (names : List String) (term : Term) : Prop :=
  ∀ index type, term = .var index type → ∃ name, names[index]? = some name

/-- The class that a term stands for: a variable by its bare name, and any other
term by its text. -/
inductive Denotes (names : List String) : Term → ClassRef → Prop
  | named {index type name} : names[index]? = some name →
      Denotes names (.var index type) (.variable name)
  | literal {term} : term.IsLiteral → Denotes names term (.literal (term.bare names))

theorem Denotes.ne_anon {names : List String} {term : Term} {reference : ClassRef}
    (hdenotes : term.Denotes names reference) : term ≠ .anon := by
  cases hdenotes with
  | named _ => simp
  | literal hliteral => exact hliteral.2

/-- Two variables whose names are equal but for the case of their letters. -/
inductive SameVariable (names : List String) : Term → Term → Prop
  | intro {i j s t left right} : names[i]? = some left → names[j]? = some right →
      equalIgnoringCase left right → SameVariable names (.var i s) (.var j t)

end Term

/-! ## The decision -/

/-- A text that is read as a single atom, with its symbol and its operands. -/
def Asks (text symbol : String) (operands : List Term) (names : List String) : Prop :=
  ∃ oid, Clause.parseQuery text =
    .ok { atoms := [.atom symbol (oid :: operands)], variableNames := names }

/-- The superclass comes first and the subclass second. -/
inductive MeansSubsumption (names : List String) : List Term → SubsumptionQuery → Prop
  | intro {superTerm subTerm superType subType} : superTerm.Denotes names superType →
      subTerm.Denotes names subType → ¬ Term.SameVariable names superTerm subTerm →
      MeansSubsumption names [superTerm, subTerm] { superType, subType }

def classTexts (names : List String) (operands : List Term) : List String :=
  (operands.filter (· ≠ .anon)).map (Term.bare names)

/-- A variable in front receives the bound, and no other operand does. -/
inductive MeansBound (names : List String) : List Term → BoundQuery → Prop
  | named {index type name rest} : names[index]? = some name →
      MeansBound names (.var index type :: rest)
        { resultVariable := some name, classes := classTexts names rest }
  | anonymous {rest} : MeansBound names (.anon :: rest)
        { resultVariable := none, classes := classTexts names rest }
  | literal {first rest} : first.IsLiteral → MeansBound names (first :: rest)
        { resultVariable := none, classes := classTexts names (first :: rest) }

/-- The variable that receives a bound is one of the table, and the classes are texts of
operands. -/
theorem MeansBound.origins {names : List String} {operands : List Term} {query : BoundQuery}
    (hmeans : MeansBound names operands query) :
    (∀ name ∈ query.resultVariable, name ∈ names) ∧
      ∀ text ∈ query.classes, ∃ operand ∈ operands, operand.bare names = text := by
  have hclasses : ∀ others ⊆ operands, ∀ text ∈ classTexts names others,
      ∃ operand ∈ operands, operand.bare names = text := by
    intro others hothers text htext
    obtain ⟨operand, hmem, hoperand⟩ := List.mem_map.mp htext
    exact ⟨operand, hothers (List.mem_filter.mp hmem).1, hoperand⟩
  cases hmeans with
  | named hname =>
      exact ⟨by simpa using List.mem_of_getElem? hname, hclasses _ (List.subset_cons_self _ _)⟩
  | anonymous => exact ⟨by simp, hclasses _ (List.subset_cons_self _ _)⟩
  | literal _ => exact ⟨by simp, hclasses _ (List.Subset.refl _)⟩

/-- A text and the request that it makes. -/
inductive Requests (text : String) : TypeQuery → Prop
  | lub {symbol operands names query} : Asks text symbol operands names →
      TypePredicate.lub.IsCalledBy symbol → MeansBound names operands query →
      Requests text (.lub query)
  | glb {symbol operands names query} : Asks text symbol operands names →
      TypePredicate.glb.IsCalledBy symbol → MeansBound names operands query →
      Requests text (.glb query)
  | subsumes {symbol operands names query} : Asks text symbol operands names →
      TypePredicate.subsumes.IsCalledBy symbol → MeansSubsumption names operands query →
      Requests text (.subsumes query)
  | subsumesPlus {symbol operands names query} : Asks text symbol operands names →
      TypePredicate.subsumesPlus.IsCalledBy symbol → MeansSubsumption names operands query →
      Requests text (.subsumesPlus query)

/-- A text and what is wrong with it.  Each case holds only where none of those
before it does. -/
inductive Rejected (text : String) : TypeQueryError → Prop
  | malformedText {error} : Clause.parseQuery text = .error error →
      Rejected text (.malformedText error)
  | notOneAtom {clause} : Clause.parseQuery text = .ok clause → clause.atoms.length ≠ 1 →
      Rejected text (.notOneAtom clause.atoms.length)
  | unsupportedPredicate {symbol operands names} : Asks text symbol operands names →
      (∀ predicate : TypePredicate, ¬ predicate.IsCalledBy symbol) →
      Rejected text (.unsupportedPredicate symbol)
  | arityOfSubsumption {symbol operands names} {predicate : TypePredicate} :
      Asks text symbol operands names → predicate.IsCalledBy symbol →
      predicate.family = .subsumption → operands.length ≠ 2 →
      Rejected text (.arityMismatch predicate .exactlyTwo operands.length)
  | arityOfBound {symbol names} {predicate : TypePredicate} : Asks text symbol [] names →
      predicate.IsCalledBy symbol → predicate.family = .bound →
      Rejected text (.arityMismatch predicate .atLeastOne 0)
  | anonymousOperand {symbol superTerm subTerm names} {predicate : TypePredicate} :
      Asks text symbol [superTerm, subTerm] names → predicate.IsCalledBy symbol →
      predicate.family = .subsumption → superTerm = .anon ∨ subTerm = .anon →
      Rejected text (.anonymousOperand predicate)
  | duplicateVariable {symbol i j s t left right names} {predicate : TypePredicate} :
      Asks text symbol [.var i s, .var j t] names → predicate.IsCalledBy symbol →
      predicate.family = .subsumption → names[i]? = some left → names[j]? = some right →
      equalIgnoringCase left right → Rejected text (.duplicateVariable left)

/-- The conditions on a text that makes a request. -/
def Answerable (text : String) : Prop :=
  ∃ symbol operands names, ∃ predicate : TypePredicate,
    Asks text symbol operands names ∧ predicate.IsCalledBy symbol ∧
    (predicate.family = .bound → operands ≠ []) ∧
    (predicate.family = .subsumption → ∃ superTerm subTerm, operands = [superTerm, subTerm] ∧
      superTerm ≠ .anon ∧ subTerm ≠ .anon ∧ ¬ Term.SameVariable names superTerm subTerm)

/-! ## The reader of requests -/

namespace QueryAtom

variable {query : QueryAtom}

theorem classRef_of_denotes {term : Term} {reference : ClassRef}
    (hdenotes : term.Denotes query.variableNames reference) :
    query.classRef term = .ok reference := by
  cases hdenotes with
  | named hname => simp [classRef, Term.operand, hname]
  | literal hliteral =>
      cases term with
      | var index type => exact absurd rfl (hliteral.1 index type)
      | anon => exact absurd rfl hliteral.2
      | const | expr | atom => rfl

theorem classRef_of_anonymous {term : Term}
    (hterm : term.operand query.variableNames = .anonymous) :
    query.classRef term = .error (.anonymousOperand query.predicate) := by
  rw [classRef, hterm]

/-- An operand stands for a class, or an error names the predicate. -/
theorem classRef_of_denotes_or_error (term : Term) :
    (∃ reference, query.classRef term = .ok reference) ∨
      query.classRef term = .error (.anonymousOperand query.predicate) := by
  rw [classRef]
  cases term.operand query.variableNames with
  | anonymous => exact .inr rfl
  | «variable» name => exact .inl ⟨_, rfl⟩
  | literal text => exact .inl ⟨_, rfl⟩

/-- Two classes are taken for one variable exactly where their terms are. -/
theorem isVariable_and_equal_iff {superTerm subTerm : Term} {superType subType : ClassRef}
    (hsuper : superTerm.Denotes query.variableNames superType)
    (hsub : subTerm.Denotes query.variableNames subType) :
    (superType.isVariable && subType.isVariable &&
      equalIgnoringCase superType.name subType.name) = true ↔
    Term.SameVariable query.variableNames superTerm subTerm := by
  constructor
  · intro hsame
    cases hsuper with
    | literal _ => simp [ClassRef.isVariable] at hsame
    | named hleft =>
        cases hsub with
        | literal _ => simp [ClassRef.isVariable] at hsame
        | named hright =>
            exact .intro hleft hright (by simpa [ClassRef.isVariable, ClassRef.name] using hsame)
  · rintro ⟨hleft, hright, hequal⟩
    cases hsuper with
    | literal hliteral => exact absurd rfl (hliteral.1 _ _)
    | named hfound =>
        cases hsub with
        | literal hliteral => exact absurd rfl (hliteral.1 _ _)
        | named hother =>
            obtain rfl := Option.some.inj (hleft.symm.trans hfound)
            obtain rfl := Option.some.inj (hright.symm.trans hother)
            simpa [ClassRef.isVariable, ClassRef.name] using hequal

section

variable {oid : Term}

/-- The two operands are looked at one after the other, and compared where both of them are
variables. -/
theorem subsumption_eq {superTerm subTerm : Term}
    (hfamily : query.predicate.family = .subsumption)
    (hargs : query.args = [oid, superTerm, subTerm]) :
    query.subsumption =
      (query.classRef superTerm).bind fun superType =>
        (query.classRef subTerm).bind fun subType =>
          if superType.isVariable && subType.isVariable &&
              equalIgnoringCase superType.name subType.name then
            .error (.duplicateVariable superType.name)
          else .ok { superType, subType } := by
  simp only [subsumption, hfamily, hargs]
  rfl

theorem subsumption_of_means {operands : List Term} {request : SubsumptionQuery}
    (hfamily : query.predicate.family = .subsumption) (hargs : query.args = oid :: operands)
    (hmeans : MeansSubsumption query.variableNames operands request) :
    query.subsumption = .ok request := by
  obtain ⟨hsuper, hsub, hdistinct⟩ := hmeans
  rw [← isVariable_and_equal_iff hsuper hsub] at hdistinct
  rw [subsumption_eq hfamily hargs, classRef_of_denotes hsuper, classRef_of_denotes hsub]
  exact if_neg hdistinct

theorem subsumption_of_length {operands : List Term}
    (hfamily : query.predicate.family = .subsumption) (hargs : query.args = oid :: operands)
    (hlength : operands.length ≠ 2) :
    query.subsumption =
      .error (.arityMismatch query.predicate .exactlyTwo operands.length) := by
  simp only [subsumption, hfamily, hargs, arity]
  rcases operands with _ | ⟨first, _ | ⟨second, _ | ⟨third, others⟩⟩⟩
  · rfl
  · rfl
  · exact absurd rfl hlength
  · rfl

/-- One anonymous operand is enough for the error, which names the predicate and not the
operand. -/
theorem subsumption_of_anonymous {superTerm subTerm : Term}
    (hfamily : query.predicate.family = .subsumption)
    (hargs : query.args = [oid, superTerm, subTerm])
    (hanonymous : superTerm.operand query.variableNames = .anonymous ∨
      subTerm.operand query.variableNames = .anonymous) :
    query.subsumption = .error (.anonymousOperand query.predicate) := by
  rw [subsumption_eq hfamily hargs]
  rcases query.classRef_of_denotes_or_error superTerm with ⟨superType, hsuper⟩ | hsuper
  · rcases hanonymous with hterm | hterm
    · simp [classRef_of_anonymous hterm] at hsuper
    · rw [hsuper, classRef_of_anonymous hterm]
      rfl
  · rw [hsuper]
    rfl

/-- The error names the first of the two variables, in its own spelling. -/
theorem subsumption_of_sameName {i j : Nat} {s t : Option String} {left right : String}
    (hfamily : query.predicate.family = .subsumption)
    (hargs : query.args = [oid, .var i s, .var j t])
    (hleft : query.variableNames[i]? = some left) (hright : query.variableNames[j]? = some right)
    (hequal : equalIgnoringCase left right) :
    query.subsumption = .error (.duplicateVariable left) := by
  have hsuper : (Term.var i s).Denotes query.variableNames _ := .named hleft
  have hsub : (Term.var j t).Denotes query.variableNames _ := .named hright
  rw [subsumption_eq hfamily hargs, classRef_of_denotes hsuper, classRef_of_denotes hsub]
  exact if_pos hequal

/-- The first operand alone decides where the bound goes. -/
theorem bound_eq {first : Term} {rest : List Term} (hfamily : query.predicate.family = .bound)
    (hargs : query.args = oid :: first :: rest) :
    query.bound = .ok
      (match first.operand query.variableNames with
      | .variable name =>
        { resultVariable := some name, classes := classTexts query.variableNames rest }
      | .anonymous => { resultVariable := none, classes := classTexts query.variableNames rest }
      | .literal _ =>
        { resultVariable := none, classes := classTexts query.variableNames (first :: rest) }) := by
  simp only [bound, hfamily, hargs, List.drop_succ_cons, List.drop_zero]
  cases first.operand query.variableNames <;> rfl

theorem bound_of_means {operands : List Term} {request : BoundQuery}
    (hfamily : query.predicate.family = .bound) (hargs : query.args = oid :: operands)
    (hmeans : MeansBound query.variableNames operands request) : query.bound = .ok request := by
  simp only [bound, hfamily, hargs]
  cases hmeans with
  | named hname => simp [Term.operand, hname]; rfl
  | anonymous => rfl
  | @literal first rest hliteral =>
      cases first with
      | var index type => exact absurd rfl (hliteral.1 index type)
      | anon => exact absurd rfl hliteral.2
      | const | expr | atom => rfl

theorem bound_of_nil (hfamily : query.predicate.family = .bound) (hargs : query.args = [oid]) :
    query.bound = .error (.arityMismatch query.predicate .atLeastOne 0) := by
  simp only [bound, hfamily, hargs, arity]
  rfl

end

/-- The number of atoms is looked at before their names are. -/
theorem ofClause_of_length {clause : Clause} (hlength : clause.atoms.length ≠ 1) :
    ofClause clause = .error (.notOneAtom clause.atoms.length) := by
  rw [ofClause]
  split
  · next hatoms => exact absurd (by rw [hatoms, List.length_singleton]) hlength
  · next hatoms => exact absurd (by rw [hatoms, List.length_singleton]) hlength
  · rfl

theorem decompose_of_subsumption_error {error : TypeQueryError}
    (hfamily : query.predicate.family = .subsumption)
    (herror : query.subsumption = .error error) : query.decompose = .error error := by
  rw [decompose]
  split <;> simp_all [TypePredicate.family, Except.map]

theorem decompose_of_bound_error {error : TypeQueryError}
    (hfamily : query.predicate.family = .bound)
    (herror : query.bound = .error error) : query.decompose = .error error := by
  rw [decompose]
  split <;> simp_all [TypePredicate.family, Except.map]

end QueryAtom

namespace TypeQuery

variable {text symbol : String} {operands : List Term} {names : List String}

/-- A text of one atom that calls a predicate is decided by the operands of the atom. -/
theorem parse_of_asks {predicate : TypePredicate} (hasks : Asks text symbol operands names)
    (hcalled : predicate.IsCalledBy symbol) :
    ∃ oid, parse text =
      QueryAtom.decompose { predicate, args := oid :: operands, variableNames := names } := by
  obtain ⟨oid, hparse⟩ := hasks
  refine ⟨oid, ?_⟩
  rw [parse, QueryAtom.parse, hparse]
  simp only [QueryAtom.ofClause, TypePredicate.ofSymbol?_of_isCalledBy hcalled]
  rfl

theorem parse_of_requests {query : TypeQuery} (hrequests : Requests text query) :
    parse text = .ok query := by
  cases hrequests with
  | lub hasks hcalled hmeans | glb hasks hcalled hmeans =>
      obtain ⟨oid, hparse⟩ := parse_of_asks hasks hcalled
      rw [hparse, QueryAtom.decompose, QueryAtom.bound_of_means rfl rfl hmeans]
      rfl
  | subsumes hasks hcalled hmeans | subsumesPlus hasks hcalled hmeans =>
      obtain ⟨oid, hparse⟩ := parse_of_asks hasks hcalled
      rw [hparse, QueryAtom.decompose, QueryAtom.subsumption_of_means rfl rfl hmeans]
      rfl

theorem parse_of_rejected {error : TypeQueryError} (hrejected : Rejected text error) :
    parse text = .error error := by
  cases hrejected with
  | malformedText herror =>
      rw [parse, QueryAtom.parse, herror]
      rfl
  | notOneAtom hclause hlength =>
      rw [parse, QueryAtom.parse, hclause]
      simp only [QueryAtom.ofClause_of_length hlength]
      rfl
  | unsupportedPredicate hasks hnone =>
      obtain ⟨oid, hparse⟩ := hasks
      rw [parse, QueryAtom.parse, hparse]
      simp only [QueryAtom.ofClause, TypePredicate.ofSymbol?_eq_none hnone]
      rfl
  | arityOfSubsumption hasks hcalled hfamily hlength =>
      obtain ⟨oid, hparse⟩ := parse_of_asks hasks hcalled
      rw [hparse]
      exact QueryAtom.decompose_of_subsumption_error hfamily
        (QueryAtom.subsumption_of_length hfamily rfl hlength)
  | arityOfBound hasks hcalled hfamily =>
      obtain ⟨oid, hparse⟩ := parse_of_asks hasks hcalled
      rw [hparse]
      exact QueryAtom.decompose_of_bound_error hfamily (QueryAtom.bound_of_nil hfamily rfl)
  | anonymousOperand hasks hcalled hfamily hanonymous =>
      obtain ⟨oid, hparse⟩ := parse_of_asks hasks hcalled
      rw [hparse]
      exact QueryAtom.decompose_of_subsumption_error hfamily
        (QueryAtom.subsumption_of_anonymous hfamily rfl
          (hanonymous.imp (congrArg (Term.operand _)) (congrArg (Term.operand _))))
  | duplicateVariable hasks hcalled hfamily hleft hright hequal =>
      obtain ⟨oid, hparse⟩ := parse_of_asks hasks hcalled
      rw [hparse]
      exact QueryAtom.decompose_of_subsumption_error hfamily
        (QueryAtom.subsumption_of_sameName hfamily rfl hleft hright hequal)

end TypeQuery

/-! ## Every text is decided -/

section

variable {text symbol : String} {operands : List Term} {names : List String}

theorem asks_of_length {clause : Clause} (hparse : Clause.parseQuery text = .ok clause)
    (hlength : clause.atoms.length = 1) :
    ∃ symbol operands, Asks text symbol operands clause.variableNames := by
  obtain ⟨atom, hatoms⟩ := List.length_eq_one_iff.mp hlength
  have hatom := (Clause.wellFormed_of_parseQuery hparse).isAtom atom (by simp [hatoms])
  cases hatom with
  | @intro symbol oid operands _ _ _ => exact ⟨symbol, operands, oid, by rw [hparse, ← hatoms]⟩

theorem Asks.isIdentifier (hasks : Asks text symbol operands names) :
    ∀ name ∈ names, Lexeme.isIdentifier name.toList := by
  obtain ⟨oid, hparse⟩ := hasks
  exact (Clause.wellFormed_of_parseQuery hparse).isIdentifier

/-- The operands of a query are terms that the grammar lets stand there, so none of them is
an atom. -/
theorem Asks.isArgument (hasks : Asks text symbol operands names) {operand : Term}
    (hmem : operand ∈ operands) : operand.IsArgument := by
  obtain ⟨oid, hparse⟩ := hasks
  cases (Clause.wellFormed_of_parseQuery hparse).isAtom _ List.mem_cons_self with
  | intro _ _ hoperands => exact hoperands operand hmem

/-- The variables among the operands are those of the table. -/
theorem Asks.isNamed (hasks : Asks text symbol operands names) {operand : Term}
    (hmem : operand ∈ operands) : operand.IsNamed names := by
  rintro index type rfl
  obtain ⟨oid, hparse⟩ := hasks
  have hindex : index ∈ (Term.atom symbol (oid :: operands)).variableIndices := by
    simp only [Term.variableIndices, Term.variableIndicesOfEach_eq_flatMap]
    exact List.mem_flatMap_of_mem (List.mem_cons_of_mem oid hmem) (by simp [Term.variableIndices])
  have hlt := (Clause.wellFormed_of_parseQuery hparse).lt_length (by simp) hindex
  exact ⟨names[index], List.getElem?_eq_getElem hlt⟩

theorem Term.exists_denotes {term : Term} (hterm : term ≠ .anon) (hnames : term.IsNamed names) :
    ∃ reference, term.Denotes names reference := by
  cases term with
  | var index type =>
      obtain ⟨name, hname⟩ := hnames index type rfl
      exact ⟨_, .named hname⟩
  | anon => exact absurd rfl hterm
  | const | expr | atom => exact ⟨_, .literal ⟨by simp, by simp⟩⟩

/-- Any operands are those of a bound, as long as there is one. -/
theorem exists_meansBound {first : Term} (hnames : first.IsNamed names) (rest : List Term) :
    ∃ request, MeansBound names (first :: rest) request := by
  cases first with
  | var index type =>
      obtain ⟨name, hname⟩ := hnames index type rfl
      exact ⟨_, .named hname⟩
  | anon => exact ⟨_, .anonymous⟩
  | const | expr | atom => exact ⟨_, .literal ⟨by simp, by simp⟩⟩

/-- Two operands that are not anonymous are two classes, or one variable twice. -/
theorem meansSubsumption_or_sameVariable {superTerm subTerm : Term}
    (hasks : Asks text symbol [superTerm, subTerm] names)
    (hsuper : superTerm ≠ .anon) (hsub : subTerm ≠ .anon) :
    (∃ request, MeansSubsumption names [superTerm, subTerm] request) ∨
      Term.SameVariable names superTerm subTerm := by
  by_cases hsame : Term.SameVariable names superTerm subTerm
  · exact .inr hsame
  · obtain ⟨superType, hsuperType⟩ := Term.exists_denotes hsuper (hasks.isNamed (by simp))
    obtain ⟨subType, hsubType⟩ := Term.exists_denotes hsub (hasks.isNamed (by simp))
    exact .inl ⟨_, .intro hsuperType hsubType hsame⟩

theorem exists_requests_of_bound {predicate : TypePredicate} {request : BoundQuery}
    (hasks : Asks text symbol operands names) (hcalled : predicate.IsCalledBy symbol)
    (hfamily : predicate.family = .bound) (hmeans : MeansBound names operands request) :
    ∃ query, Requests text query := by
  cases predicate with
  | lub => exact ⟨_, .lub hasks hcalled hmeans⟩
  | glb => exact ⟨_, .glb hasks hcalled hmeans⟩
  | subsumes | subsumesPlus => simp [TypePredicate.family] at hfamily

theorem exists_requests_of_subsumption {predicate : TypePredicate} {request : SubsumptionQuery}
    (hasks : Asks text symbol operands names) (hcalled : predicate.IsCalledBy symbol)
    (hfamily : predicate.family = .subsumption)
    (hmeans : MeansSubsumption names operands request) : ∃ query, Requests text query := by
  cases predicate with
  | lub | glb => simp [TypePredicate.family] at hfamily
  | subsumes => exact ⟨_, .subsumes hasks hcalled hmeans⟩
  | subsumesPlus => exact ⟨_, .subsumesPlus hasks hcalled hmeans⟩

theorem requests_or_rejected_of_asks {predicate : TypePredicate}
    (hasks : Asks text symbol operands names) (hcalled : predicate.IsCalledBy symbol) :
    (∃ query, Requests text query) ∨ ∃ error, Rejected text error := by
  cases hfamily : predicate.family with
  | bound =>
      cases operands with
      | nil => exact .inr ⟨_, .arityOfBound hasks hcalled hfamily⟩
      | cons first rest =>
          obtain ⟨request, hmeans⟩ := exists_meansBound (hasks.isNamed List.mem_cons_self) rest
          exact .inl (exists_requests_of_bound hasks hcalled hfamily hmeans)
  | subsumption =>
      by_cases hlength : operands.length = 2
      · obtain ⟨superTerm, subTerm, rfl⟩ := List.length_eq_two.mp hlength
        by_cases hanonymous : superTerm = .anon ∨ subTerm = .anon
        · exact .inr ⟨_, .anonymousOperand hasks hcalled hfamily hanonymous⟩
        · rw [not_or] at hanonymous
          rcases meansSubsumption_or_sameVariable hasks hanonymous.1 hanonymous.2 with
            ⟨request, hmeans⟩ | ⟨hleft, hright, hequal⟩
          · exact .inl (exists_requests_of_subsumption hasks hcalled hfamily hmeans)
          · exact .inr ⟨_, .duplicateVariable hasks hcalled hfamily hleft hright hequal⟩
      · exact .inr ⟨_, .arityOfSubsumption hasks hcalled hfamily hlength⟩

/-- No text is left undecided, so that each of the two relations is what the reader does. -/
theorem requests_or_rejected (text : String) :
    (∃ query, Requests text query) ∨ ∃ error, Rejected text error := by
  cases hparse : Clause.parseQuery text with
  | error error => exact .inr ⟨_, .malformedText hparse⟩
  | ok clause =>
      by_cases hlength : clause.atoms.length = 1
      · obtain ⟨symbol, operands, hasks⟩ := asks_of_length hparse hlength
        by_cases hcalled : ∃ predicate : TypePredicate, predicate.IsCalledBy symbol
        · obtain ⟨predicate, hcalled⟩ := hcalled
          exact requests_or_rejected_of_asks hasks hcalled
        · exact .inr ⟨_, .unsupportedPredicate hasks (not_exists.mp hcalled)⟩
      · exact .inr ⟨_, .notOneAtom hparse hlength⟩

theorem MeansSubsumption.distinct {request : SubsumptionQuery}
    (hmeans : MeansSubsumption names operands request) :
    ∃ superTerm subTerm, operands = [superTerm, subTerm] ∧
      superTerm ≠ .anon ∧ subTerm ≠ .anon ∧ ¬ Term.SameVariable names superTerm subTerm := by
  obtain ⟨hsuper, hsub, hdistinct⟩ := hmeans
  exact ⟨_, _, rfl, hsuper.ne_anon, hsub.ne_anon, hdistinct⟩

/-- The conditions are what all requests have in common. -/
theorem answerable_of_requests {query : TypeQuery} (hrequests : Requests text query) :
    Answerable text := by
  cases hrequests with
  | lub hasks hcalled hmeans | glb hasks hcalled hmeans =>
      refine ⟨_, _, _, _, hasks, hcalled, fun _ => ?_, fun hfamily => by cases hfamily⟩
      cases hmeans <;> simp
  | subsumes hasks hcalled hmeans | subsumesPlus hasks hcalled hmeans =>
      exact ⟨_, _, _, _, hasks, hcalled, fun hfamily => (by cases hfamily),
        fun _ => hmeans.distinct⟩

theorem exists_requests_of_answerable (hanswerable : Answerable text) :
    ∃ query, Requests text query := by
  obtain ⟨symbol, operands, names, predicate, hasks, hcalled, hbound, hsubsumption⟩ := hanswerable
  cases hfamily : predicate.family with
  | bound =>
      obtain ⟨first, rest, rfl⟩ := List.exists_cons_of_ne_nil (hbound hfamily)
      obtain ⟨request, hmeans⟩ := exists_meansBound (hasks.isNamed List.mem_cons_self) rest
      exact exists_requests_of_bound hasks hcalled hfamily hmeans
  | subsumption =>
      obtain ⟨superTerm, subTerm, rfl, hsuper, hsub, hdistinct⟩ := hsubsumption hfamily
      rcases meansSubsumption_or_sameVariable hasks hsuper hsub with ⟨request, hmeans⟩ | hsame
      · exact exists_requests_of_subsumption hasks hcalled hfamily hmeans
      · exact absurd hsame hdistinct

end

namespace TypeQuery

/-- No text makes two requests, as the reader gives one answer. -/
theorem parse_eq_ok_iff {text : String} {query : TypeQuery} :
    parse text = .ok query ↔ Requests text query := by
  constructor
  · intro hparse
    rcases requests_or_rejected text with ⟨other, hrequests⟩ | ⟨error, hrejected⟩
    · rw [parse_of_requests hrequests] at hparse
      exact Except.ok.inj hparse ▸ hrequests
    · simp [parse_of_rejected hrejected] at hparse
  · exact parse_of_requests

/-- No text is wrong in two ways, as the reader finds the first of them. -/
theorem parse_eq_error_iff {text : String} {error : TypeQueryError} :
    parse text = .error error ↔ Rejected text error := by
  constructor
  · intro hparse
    rcases requests_or_rejected text with ⟨query, hrequests⟩ | ⟨other, hrejected⟩
    · simp [parse_of_requests hrequests] at hparse
    · rw [parse_of_rejected hrejected] at hparse
      exact Except.error.inj hparse ▸ hrejected
  · exact parse_of_rejected

/-- A text makes a request exactly where all conditions hold, and otherwise the
first that does not hold gives the error.  Its payload is what was written, and
no query is ever taken for one of the other family. -/
theorem parse_decides (text : String) :
    ((∃ query, parse text = .ok query) ↔ Answerable text) ∧
    (∀ query, parse text = .ok query ↔ Requests text query) ∧
    (∀ error, parse text = .error error ↔ Rejected text error) ∧
    (∀ expected found, parse text ≠ .error (.predicateMismatch expected found)) := by
  refine ⟨⟨?_, ?_⟩, fun query => parse_eq_ok_iff, fun error => parse_eq_error_iff, ?_⟩
  · rintro ⟨query, hparse⟩
    exact answerable_of_requests (parse_eq_ok_iff.mp hparse)
  · intro hanswerable
    obtain ⟨query, hrequests⟩ := exists_requests_of_answerable hanswerable
    exact ⟨query, parse_of_requests hrequests⟩
  · intro expected found hparse
    cases parse_eq_error_iff.mp hparse

/-- The object identifier is no operand, and the case of the letters does not
matter for the predicate. -/
theorem parse_decides_subsumesPlus :
    let text := "SubsumesPlus(?Id^?Super:T, f(?Sub, a))"
    let query := TypeQuery.subsumesPlus
      { superType := .variable "Super", subType := .literal "f(Sub, a)" }
    parse text = .ok query ∧ Requests text query ∧ Answerable text := by
  intro text query
  obtain ⟨hanswerable, hrequests, -, -⟩ := parse_decides text
  have hparse : parse text = .ok query := by decide +kernel
  exact ⟨hparse, (hrequests query).mp hparse, hanswerable.mp ⟨query, hparse⟩⟩

/-- Of two errors the earlier one counts: here an anonymous operand among three
of them. -/
example : parse "subsumes(_, a, b)." = .error (.arityMismatch .subsumes .exactlyTwo 3) := by
  decide +kernel

end TypeQuery

end Posl
