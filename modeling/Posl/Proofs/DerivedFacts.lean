import Posl.Proofs.ReadClauses
import Posl.Proofs.RoundTrip
import Posl.Proofs.Workspace

/-!
# Facts that calls derive

A built-in answers only where its inputs are constants, and asserts a fact of
constants: the operands of the call, with the result computed in its place.  Such a
fact has no variables, and its text is read as the fact again.
-/

namespace Posl

/-! ## Constants -/

namespace Term

def IsConstant (term : Term) : Prop := ∃ name type, term = .const name type

theorem isConstant_of_ofTerm? {term : Term} {number : Number}
    (hnumber : Number.ofTerm? term = some number) : term.IsConstant := by
  cases term with
  | const name type => exact ⟨name, type, rfl⟩
  | var | anon | expr | atom => exact absurd hnumber (by simp [Number.ofTerm?])

theorem isConstant_of_constantText? {term : Term} {text : String}
    (htext : constantText? term = some text) : term.IsConstant := by
  cases term with
  | const name type => exact ⟨name, type, rfl⟩
  | var | anon | expr | atom => exact absurd htext (by simp [constantText?])

/-- Only constants have texts, so a list of terms with texts is one of constants. -/
theorem isConstant_of_mapM_constantText? {terms : List Term} {texts : List String}
    (htexts : terms.mapM constantText? = some texts) : ∀ term ∈ terms, term.IsConstant := by
  induction terms generalizing texts with
  | nil => simp
  | cons term terms ih =>
      rw [List.mapM_cons] at htexts
      obtain ⟨text, htext, hothers⟩ := Option.bind_eq_some_iff.mp htexts
      obtain ⟨others, hothers, -⟩ := Option.bind_eq_some_iff.mp hothers
      exact List.forall_mem_cons.mpr ⟨isConstant_of_constantText? htext, ih hothers⟩

theorem IsConstant.variableIndices {term : Term} (hterm : term.IsConstant) :
    term.variableIndices = [] := by
  obtain ⟨name, type, rfl⟩ := hterm
  rfl

theorem IsAtom.isArgument_of_mem_operands {atom operand : Term} (hatom : atom.IsAtom)
    (hmem : operand ∈ atom.operands) : operand.IsArgument := by
  cases hatom with
  | intro _ _ hoperands => exact hoperands operand hmem

end Term

/-- A constant that a built-in computes, which is typed. -/
inductive IsComputed : Term → Prop
  | intro {name type} : Lexeme.isIdentifier type.toList → IsComputed (.const name (some type))

theorem IsComputed.isConstant {term : Term} (hterm : IsComputed term) : term.IsConstant := by
  cases hterm with
  | intro _ => exact ⟨_, _, rfl⟩

theorem IsComputed.isArgument {term : Term} (hterm : IsComputed term) : term.IsArgument := by
  cases hterm with
  | intro htype =>
      refine .const ?_
      rintro _ ⟨⟩
      exact htype

theorem isComputed_toTerm (number : Number) : IsComputed number.toTerm := by
  cases number with
  | integer value => exact .intro (by decide)
  | real value => exact .intro (by decide)

/-! ## Computations -/

/-- A computation that has a result only for constants, which is a constant of its
own type. -/
def OfConstants (compute? : List Term → Option Term) : Prop :=
  ∀ {inputs computed}, compute? inputs = some computed →
    (∀ input ∈ inputs, input.IsConstant) ∧ IsComputed computed

/-- Numbers are computed from numbers, which only constants are. -/
theorem ofConstants_arithmetic (operation : ArithmeticOperation) :
    OfConstants operation.compute? := by
  intro inputs computed hcompute
  unfold ArithmeticOperation.compute? at hcompute
  split at hcompute
  · next x y =>
      obtain ⟨left, hleft, hcompute⟩ := Option.bind_eq_some_iff.mp hcompute
      obtain ⟨right, hright, hcompute⟩ := Option.bind_eq_some_iff.mp hcompute
      obtain ⟨value, -, hvalue⟩ := Option.bind_eq_some_iff.mp hcompute
      obtain rfl := Option.some.inj hvalue
      have hinputs := List.forall_mem_cons.mpr ⟨Term.isConstant_of_ofTerm? hleft,
        List.forall_mem_singleton.mpr (Term.isConstant_of_ofTerm? hright)⟩
      exact ⟨hinputs, isComputed_toTerm value⟩
  · exact absurd hcompute (by simp)

theorem ofConstants_concatenation : OfConstants concatenation? := by
  intro inputs computed hcompute
  unfold concatenation? at hcompute
  dsimp only at hcompute
  split at hcompute
  · exact absurd hcompute (by simp)
  · obtain ⟨texts, htexts, hjoined⟩ := Option.bind_eq_some_iff.mp hcompute
    obtain rfl := Option.some.inj hjoined
    exact ⟨Term.isConstant_of_mapM_constantText? htexts, .intro (by decide)⟩

theorem ofConstants_textLength : OfConstants textLength? := by
  intro inputs computed hcompute
  unfold textLength? at hcompute
  split at hcompute
  · obtain ⟨text, htext, hlength⟩ := Option.bind_eq_some_iff.mp hcompute
    obtain rfl := Option.some.inj hlength
    have hinput := Term.isConstant_of_constantText? htext
    exact ⟨List.forall_mem_singleton.mpr hinput, .intro (by decide)⟩
  · exact absurd hcompute (by simp)

theorem isConstant_of_comparesAs {relation : Real64 → Real64 → Bool} {operands : List Term}
    (hholds : comparesAs relation operands) : ∀ operand ∈ operands, operand.IsConstant := by
  unfold comparesAs at hholds
  split at hholds
  · split at hholds
    · next left right hleft hright =>
        exact List.forall_mem_cons.mpr ⟨Term.isConstant_of_ofTerm? hleft,
          List.forall_mem_singleton.mpr (Term.isConstant_of_ofTerm? hright)⟩
    · exact absurd hholds (by simp)
  · exact absurd hholds (by simp)

/-! ## Answers -/

namespace StandardBuiltin

/-- Whether the built-in puts a result in the place of its first operand. -/
def computes : StandardBuiltin → Bool
  | .add | .subtract | .multiply | .stringConcatenate | .stringLength => true
  | .greaterThan | .lessThan => false

variable {builtin : StandardBuiltin}

/-- Each built-in either computes its first operand from the others, or compares. -/
theorem exists_computing (hcomputes : builtin.computes) :
    ∃ compute?, OfConstants compute? ∧ builtin.answer? = Builtin.computing builtin.name compute? := by
  cases builtin with
  | add | subtract | multiply => exact ⟨_, ofConstants_arithmetic _, rfl⟩
  | greaterThan | lessThan => exact absurd hcomputes (by decide)
  | stringConcatenate => exact ⟨_, ofConstants_concatenation, rfl⟩
  | stringLength => exact ⟨_, ofConstants_textLength, rfl⟩

theorem exists_testing (htests : ¬ builtin.computes) :
    ∃ relation, builtin.answer? = Builtin.testing builtin.name (comparesAs relation) := by
  cases builtin with
  | add | subtract | multiply | stringConcatenate | stringLength => exact absurd rfl htests
  | greaterThan | lessThan => exact ⟨_, rfl⟩

end StandardBuiltin

/-- The operands of a fact that a call of a built-in asserts: constants, which are
those of the call but for a computed result. -/
structure Answers (builtin : StandardBuiltin) (call : Term) (operands : List Term) : Prop where
  length_eq : operands.length = call.operands.length
  kept : ∀ place, (builtin.computes → place ≠ 0) → operands[place]? = call.operands[place]?
  computed : ∀ operand ∈ operands, operand ∈ call.operands ∨ IsComputed operand
  constant : ∀ operand ∈ operands, operand.IsConstant

/-- What is computed stands in the first place, and the other operands are taken over as
they are. -/
theorem exists_answers_of_computing {builtin : StandardBuiltin} (hcomputes : builtin.computes)
    {compute? : List Term → Option Term} (hcompute : OfConstants compute?) {call : Term}
    {fact : Clause} (hanswer : Builtin.computing builtin.name compute? call = some fact) :
    ∃ operands, fact = Builtin.fact builtin.name operands ∧ Answers builtin call operands := by
  obtain ⟨result, inputs, computed, hoperands, hcomputed, -, rfl⟩ :=
    Builtin.computing_eq_some_iff.mp hanswer
  obtain ⟨hinputs, hresult⟩ := hcompute hcomputed
  refine ⟨computed :: inputs, rfl, ?_, ?_, ?_, ?_⟩
  · rw [hoperands, List.length_cons, List.length_cons]
  · intro place hplace
    obtain ⟨place, rfl⟩ := Nat.exists_eq_add_one_of_ne_zero (hplace hcomputes)
    rw [hoperands, List.getElem?_cons_succ, List.getElem?_cons_succ]
  · rw [List.forall_mem_cons]
    refine ⟨.inr hresult, fun operand hmem => .inl ?_⟩
    rw [hoperands]
    exact List.mem_cons_of_mem result hmem
  · exact List.forall_mem_cons.mpr ⟨hresult.isConstant, hinputs⟩

theorem exists_answers_of_testing {builtin : StandardBuiltin}
    {relation : Real64 → Real64 → Bool} {call : Term} {fact : Clause}
    (hanswer : Builtin.testing builtin.name (comparesAs relation) call = some fact) :
    ∃ operands, fact = Builtin.fact builtin.name operands ∧ Answers builtin call operands := by
  obtain ⟨hholds, rfl⟩ := Builtin.testing_eq_some_iff.mp hanswer
  exact ⟨call.operands, rfl, rfl, fun _ _ => rfl, fun _ hmem => .inl hmem,
    isConstant_of_comparesAs hholds⟩

/-- A fact that a standard built-in asserts has constants for operands, those of the call
among them. -/
theorem exists_answers {builtin : StandardBuiltin} {call : Term} {fact : Clause}
    (hanswer : builtin.answer? call = some fact) :
    ∃ operands, fact = Builtin.fact builtin.name operands ∧ Answers builtin call operands := by
  by_cases hcomputes : builtin.computes
  · obtain ⟨compute?, hcompute, hcomputing⟩ := StandardBuiltin.exists_computing hcomputes
    exact exists_answers_of_computing hcomputes hcompute (hcomputing ▸ hanswer)
  · obtain ⟨relation, htesting⟩ := StandardBuiltin.exists_testing hcomputes
    exact exists_answers_of_testing (htesting ▸ hanswer)

/-! ## Reading a fact again -/

namespace Clause

/-- An atom over constants has no variables to be numbered, so it needs no names. -/
theorem wellFormed_fact {predicate : String} {operands : List Term}
    (hpredicate : Lexeme.isIdentifier predicate.toList)
    (harguments : ∀ operand ∈ operands, operand.IsArgument)
    (hconstants : ∀ operand ∈ operands, operand.IsConstant) :
    (Builtin.fact predicate operands).WellFormed where
  atoms_ne_nil := List.cons_ne_nil _ _
  isAtom := List.forall_mem_singleton.mpr (.intro hpredicate .anon harguments)
  names_nodup := .nil
  isIdentifier := by simp [Builtin.fact]
  numbered := by
    have hnone : operands.flatMap Term.variableIndices = [] :=
      List.flatMap_eq_nil_iff.mpr fun operand hmem => (hconstants operand hmem).variableIndices
    simp [Builtin.fact, Term.call, Term.variableIndices, hnone]

/-- The text of a clause is read as the clause by the parser of clauses too. -/
theorem WellFormed.parse_text {clause : Clause} (hclause : clause.WellFormed) :
    Clause.parse clause.text = .ok clause := by
  have htext : clause.text.toList = clause.chars := String.toList_ofList
  have hwhole := hclause.whole_chars.1
  rw [← htext] at hwhole
  rw [parse_of_whole hwhole, hclause.ofSource_toSource]

/-- A clause that one of the three parsers gives for some text. -/
def IsParsed (clause : Clause) : Prop :=
  ∃ text, Clause.parseQuery text = .ok clause ∨ Clause.parse text = .ok clause ∨
    ∃ clauses, Clause.parseProgram text = .ok clauses ∧ clause ∈ clauses

/-- Whichever parser was used, what it gave is a clause that has a writing. -/
theorem IsParsed.wellFormed {clause : Clause} (hclause : clause.IsParsed) :
    clause.WellFormed := by
  obtain ⟨text, hquery | hparse | ⟨clauses, hprogram, hmem⟩⟩ := hclause
  · exact wellFormed_of_parseQuery hquery
  · obtain ⟨atoms, -, hread⟩ := exists_readFrom_of_parse hparse
    exact hread.wellFormed
  · obtain ⟨sources, -, hread⟩ := exists_readFrom_of_parseProgram hprogram
    obtain ⟨place, hplace, rfl⟩ := List.getElem_of_mem hmem
    exact (hread.get hplace (hread.length_eq ▸ hplace)).wellFormed

end Clause

/-- A fact that a call of a standard built-in asserts: one atom of the predicate
called, with no object identifier, over constants.  The fact has no variables, and
its text is read as the fact. -/
structure StandardBuiltin.Asserts (builtin : StandardBuiltin) (call : Term) (fact : Clause) :
    Prop where
  predicate_eq : ∃ slots, call = .atom builtin.name slots
  closed : ∃ operands,
    fact = { atoms := [.atom builtin.name (.anon :: operands)], variableNames := [] } ∧
      Answers builtin call operands
  parse_text : Clause.parse fact.text = .ok fact

/-- The predicate of a fact is the name that was called, and the fact reads back as
itself. -/
theorem StandardBuiltin.asserts {builtin : StandardBuiltin} {call : Term} (hcall : call.IsAtom)
    (hname : call.symbolName? = some builtin.name) {fact : Clause}
    (hanswer : builtin.answer? call = some fact) : builtin.Asserts call fact := by
  obtain ⟨operands, rfl, hoperands⟩ := exists_answers hanswer
  refine ⟨?_, ⟨operands, rfl, hoperands⟩, ?_⟩
  · cases hcall with
    | intro _ _ _ =>
        obtain rfl := Option.some.inj hname
        exact ⟨_, rfl⟩
  · have hpredicate : Lexeme.isIdentifier builtin.name.toList := by cases builtin <;> decide
    have harguments : ∀ operand ∈ operands, operand.IsArgument := fun operand hmem =>
      (hoperands.computed operand hmem).elim hcall.isArgument_of_mem_operands
        IsComputed.isArgument
    exact (Clause.wellFormed_fact hpredicate harguments hoperands.constant).parse_text

/-! ## The standard registry -/

namespace Registry

/-- Whether a built-in is a standard one under the standard name. -/
def HasSource (builtin : Builtin) (source : StandardBuiltin) : Prop :=
  builtin.name = source.name ∧ builtin.answer? = source.answer?

/-- What is put into a registry of standard built-ins is a standard built-in, so nothing
else is found in it. -/
theorem exists_source_of_get?_foldl (builtins : List StandardBuiltin)
    {state : Registry × SymbolTable}
    (hstate : ∀ id builtin, state.1.get? id = some builtin → ∃ source, HasSource builtin source)
    {id : SymbolId} {builtin : Builtin}
    (hget : (builtins.foldl insertStandard state).1.get? id = some builtin) :
    ∃ source, HasSource builtin source := by
  induction builtins generalizing state with
  | nil => exact hstate id builtin hget
  | cons first builtins ih =>
      refine ih ?_ hget
      intro other found hfound
      simp only [insertStandard, insertMade, get?_insert] at hfound
      split at hfound
      · obtain rfl := Option.some.inj hfound
        exact ⟨first, rfl, rfl⟩
      · exact hstate other found hfound

theorem exists_source_of_get?_standard {table : SymbolTable} {id : SymbolId} {builtin : Builtin}
    (hget : (standard table).1.get? id = some builtin) : ∃ source, HasSource builtin source := by
  refine exists_source_of_get?_foldl StandardBuiltin.all ?_ hget
  intro id builtin hnone
  rw [get?_empty] at hnone
  exact absurd hnone (by simp)

/-- Whatever call is answered, the name of the built-in that answers leads to it as well. -/
theorem exists_source_of_callAtom {table later : SymbolTable}
    (hextends : later.Extends (standard table).2) {call : Term} {fact : Clause}
    (hfact : (standard table).1.callAtom later call = .derives fact) :
    ∃ routed source, HasSource routed source ∧
      (standard table).1.route? later call = some routed ∧
      (standard table).1.builtinFor? later source.name = some routed ∧
      source.answer? call = some fact := by
  obtain ⟨routed, hroute, hanswer⟩ := (callAtom_eq_iff (by simp)).mp hfact
  obtain ⟨name, -, hbuiltin⟩ := Option.bind_eq_some_iff.mp hroute
  obtain ⟨id, -, hget⟩ := Option.bind_eq_some_iff.mp hbuiltin
  obtain ⟨source, hname, hsame⟩ := exists_source_of_get?_standard hget
  have hcurrent := (currentExcept_standard (fun _ => False) table).extend hextends
  obtain ⟨hsymbol, hcode | hstale⟩ := hcurrent id routed hget
  · refine ⟨routed, source, ⟨hname, hsame⟩, hroute, ?_, ?_⟩
    · rw [builtinFor?, ← hname, hcode, Option.bind_some, hsymbol, hget]
    · rw [← hsame]
      exact CallResult.ofAnswer_eq_derives_iff.mp hanswer.symm
  · exact hstale.elim

end Registry

/-- A session whose registry is the standard one and whose table has all names of the
registry's table, under codes of their own. -/
structure Session.IsStandard (session : Session) : Prop where
  registry : ∃ table, session.registry = (Registry.standard table).1 ∧
    session.table.Extends (Registry.standard table).2
  lists : ∃ names, session.table.Lists names
  size_le : session.table.size ≤ SymbolTable.capacity

namespace Session.IsStandard

variable {session : Session}

/-- Names that come in later do not change which calls the standard registry
answers, nor how. -/
theorem exists_asserts_of_callAtom (hsession : session.IsStandard) {call : Term}
    (hcall : call.IsAtom) {fact : Clause}
    (hfact : session.registry.callAtom session.table call = .derives fact) :
    ∃ builtin : StandardBuiltin, builtin.Asserts call fact := by
  obtain ⟨table, hregistry, hextends⟩ := hsession.registry
  obtain ⟨names, hlists⟩ := hsession.lists
  rw [hregistry] at hfact
  have hcurrent := (Registry.currentExcept_standard (fun _ => False) table).extend hextends
  obtain ⟨routed, source, ⟨hsource, -⟩, hroute, -, hanswer⟩ :=
    Registry.exists_source_of_callAtom hextends hfact
  obtain ⟨name, hname, hbuiltin⟩ := Option.bind_eq_some_iff.mp hroute
  obtain ⟨-, -, hmade | hstale⟩ := hcurrent.of_builtinFor? hlists hsession.size_le hbuiltin
  · rw [← hmade, hsource] at hname
    exact ⟨source, source.asserts hcall hname hanswer⟩
  · exact hstale.elim

/-- Whatever comes of an atom of a parsed clause is a closed fact of the predicate
called. -/
theorem exists_asserts_of_mem_facts (hsession : session.IsStandard) {clause : Clause}
    (hclause : clause.IsParsed) {call : Term} (hcall : call ∈ clause.atoms) {fact : Clause}
    (hfact : fact ∈ (session.registry.callAtom session.table call).facts) :
    ∃ builtin : StandardBuiltin, builtin.Asserts call fact := by
  cases hresult : session.registry.callAtom session.table call with
  | notBuiltin | fails =>
      rw [hresult] at hfact
      exact absurd hfact List.not_mem_nil
  | derives derived =>
      rw [hresult] at hfact
      obtain rfl := List.mem_singleton.mp hfact
      exact hsession.exists_asserts_of_callAtom (hclause.wellFormed.isAtom call hcall) hresult

end Session.IsStandard

namespace Workspace

/-- Whether a step leaves the registry as it is, and every name in the table under
its code. -/
def Step.KeepsRegistry : Step → Prop
  | .intern _ | .make _ => True
  | .resetTable | .clearRegistry | .useStandard | .register _ => False

theorem step_of_keepsRegistry (workspace : Workspace) {step : Step}
    (hstep : step.KeepsRegistry) :
    (workspace.step step).session.registry = workspace.session.registry ∧
      (workspace.step step).session.table.Extends workspace.session.table := by
  cases step with
  | intern name => exact ⟨rfl, workspace.session.table.extends_intern name⟩
  | make source => exact ⟨rfl, source.extends_make workspace.session.table⟩
  | resetTable | clearRegistry | useStandard | register => exact hstep.elim

theorem run_of_keepsRegistry (workspace : Workspace) {steps : List Step}
    (hsteps : ∀ step ∈ steps, step.KeepsRegistry) :
    (workspace.run steps).session.registry = workspace.session.registry ∧
      (workspace.run steps).session.table.Extends workspace.session.table := by
  induction steps generalizing workspace with
  | nil => exact ⟨rfl, .refl _⟩
  | cons step steps ih =>
      obtain ⟨hstep, hsteps⟩ := List.forall_mem_cons.mp hsteps
      obtain ⟨hregistry, hextends⟩ := ih (workspace.step step) hsteps
      obtain ⟨hfirst, hgrown⟩ := workspace.step_of_keepsRegistry hstep
      exact ⟨hregistry.trans hfirst, hextends.trans hgrown⟩

/-- The standard registry stays in use until the registry or the table is touched. -/
theorem isStandard_run {before after : List Step} (hafter : ∀ step ∈ after, step.KeepsRegistry)
    (hsize : (run ∅ (before ++ .useStandard :: after)).session.table.size ≤
      SymbolTable.capacity) :
    (run ∅ (before ++ .useStandard :: after)).session.IsStandard := by
  have hlists := exists_lists_run (before ++ .useStandard :: after)
  rw [run_append, run_cons] at *
  generalize run ∅ before = reached at *
  obtain ⟨hregistry, hextends⟩ := run_of_keepsRegistry (reached.step .useStandard) hafter
  rw [registry_step_useStandard] at hregistry
  rw [table_step_useStandard] at hextends
  exact ⟨⟨_, hregistry, hextends⟩, hlists, hsize⟩

/-- Calls and derivations with the standard registry, on a clause that was parsed,
give closed facts that are read back from their texts. -/
theorem facts_of_standard_closed {before after : List Step}
    (hafter : ∀ step ∈ after, step.KeepsRegistry)
    (hsize : (run ∅ (before ++ .useStandard :: after)).session.table.size ≤ SymbolTable.capacity)
    {clause : Clause} (hclause : clause.IsParsed) :
    (∀ index result,
      (run ∅ (before ++ .useStandard :: after)).session.call clause index = .ok result →
        ∀ fact ∈ result.facts, ∃ call, clause.atoms[index]? = some call ∧
          ∃ builtin : StandardBuiltin, builtin.Asserts call fact) ∧
    ∀ fact ∈ (run ∅ (before ++ .useStandard :: after)).session.deriveFacts clause,
      ∃ call ∈ clause.body, ∃ builtin : StandardBuiltin, builtin.Asserts call fact := by
  have hsession := isStandard_run hafter hsize
  constructor
  · intro index result hresult fact hfact
    rw [Session.call, Registry.call, Clause.atomAt] at hresult
    split at hresult
    · next call hplace =>
        obtain rfl := Except.ok.inj hresult
        exact ⟨call, hplace, hsession.exists_asserts_of_mem_facts hclause
          (List.mem_of_getElem? hplace) hfact⟩
    · exact absurd hresult (by simp [Except.map])
  · intro fact hfact
    obtain ⟨call, hmem, hderived⟩ := List.mem_flatMap.mp hfact
    exact ⟨call, hmem, hsession.exists_asserts_of_mem_facts hclause
      (List.mem_of_mem_drop hmem) hderived⟩

/-- A quoted text is joined to a constant of some type. -/
theorem facts_of_stringConcatenate_closed :
    let call : Term := .atom "stringConcatenate"
      [.anon, .var 0 none, .const "a\"b" none, .const "c" (some "T")]
    let clause : Clause :=
      { atoms := [.atom "r" [.anon, .var 0 none], call], variableNames := ["Z"] }
    let fact := Builtin.fact "stringConcatenate"
      [.const "a\"bc" (some "String"), .const "a\"b" none, .const "c" (some "T")]
    Clause.parse "r(?Z) :- stringConcatenate(?Z, \"a\\\"b\", c:T)." = .ok clause ∧
      (run ∅ [.useStandard]).session.call clause 1 = .ok (.derives fact) ∧
      ∃ builtin : StandardBuiltin, builtin.Asserts call fact := by
  intro call clause fact
  have hparse : Clause.parse "r(?Z) :- stringConcatenate(?Z, \"a\\\"b\", c:T)." = .ok clause := by
    decide +kernel
  have hcall : (run ∅ [.useStandard]).session.call clause 1 = .ok (.derives fact) := by
    have hjoined : StandardBuiltin.callAtom call = .derives fact := by decide +kernel
    rw [session_useStandard, Session.call,
      Registry.call_standard SymbolTable.lists_empty Registry.size_standard_empty]
    exact congrArg Except.ok hjoined
  have hsize : (run ∅ [.useStandard]).session.table.size ≤ SymbolTable.capacity := by
    rw [session_useStandard]
    exact Registry.size_standard_empty
  obtain ⟨hcalls, -⟩ := @facts_of_standard_closed [] [] (by simp) hsize clause
    ⟨_, .inr (.inl hparse)⟩
  obtain ⟨_, hplace, hasserts⟩ := hcalls 1 _ hcall fact (List.mem_singleton.mpr rfl)
  obtain rfl := Option.some.inj hplace
  exact ⟨hparse, hcall, hasserts⟩

end Workspace

end Posl
