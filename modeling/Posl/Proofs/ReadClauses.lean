import Mathlib.Data.List.Forall2
import Posl.Proofs.Grammar.Acceptance
import Posl.Proofs.WellFormed

/-!
# Clauses that are read

Every clause that a text is read as is well-formed.  Its variables are numbered
as they first occur, and two of them have one number exactly where one name was
written.
-/

namespace Posl

open Written

/-! ## Numbering by first occurrence -/

theorem nodup_eraseDups (names : List String) : names.eraseDups.Nodup := by
  match names with
  | [] => simp
  | first :: others =>
      have hothers := nodup_eraseDups (others.filter fun name => !name == first)
      rw [List.eraseDups_cons, List.nodup_cons]
      refine ⟨?_, hothers⟩
      simp [List.mem_eraseDups]
termination_by names.length
decreasing_by exact Nat.lt_succ_of_le (List.length_filter_le _ _)

/-- The first occurrences are numbered one after the other. -/
theorem eraseDups_map_idxOf (names : List String) :
    (names.map names.eraseDups.idxOf).eraseDups = List.range names.eraseDups.length := by
  have hinjective : ∀ left ∈ names, ∀ right ∈ names,
      names.eraseDups.idxOf left = names.eraseDups.idxOf right → left = right := by
    intro left hleft right _ hplace
    exact (List.idxOf_inj (List.mem_eraseDups.mpr hleft)).mp hplace
  rw [eraseDups_map_of_injective _ _ hinjective]
  apply List.ext_getElem
  · simp
  · intro place hleft hright
    simp [(nodup_eraseDups names).idxOf_getElem]

/-- Numbers of which each is one of those before it or the least other one. -/
def InOrder (numbers : List Nat) : Prop :=
  ∀ before number after, numbers = before ++ number :: after →
    number ∈ before ∨ ∀ other, other ∈ before ↔ other < number

/-- Numbers whose first occurrences count up from zero are given in the order of first
occurrence. -/
theorem inOrder_of_eraseDups {numbers : List Nat} {count : Nat}
    (hnumbers : numbers.eraseDups = List.range count) : InOrder numbers := by
  intro before number after hsplit
  by_cases hmem : number ∈ before
  · exact .inl hmem
  · have hremoved : (number :: after).removeAll before = number :: after.removeAll before := by
      simp [List.removeAll, hmem]
    rw [hsplit, List.eraseDups_append, hremoved, List.eraseDups_cons] at hnumbers
    obtain ⟨hlt, hnumber⟩ : before.eraseDups.length < count ∧ before.eraseDups.length = number := by
      have hplace := congrArg (·[before.eraseDups.length]?) hnumbers
      simpa [List.getElem?_eq_some_iff] using hplace.symm
    have hbefore : before.eraseDups = List.range number := by
      have htaken := congrArg (List.take before.eraseDups.length) hnumbers
      rwa [List.take_left, List.take_range, Nat.min_eq_left (Nat.le_of_lt hlt), hnumber] at htaken
    refine .inr fun other => ?_
    rw [← List.mem_eraseDups, hbefore, List.mem_range]

/-! ## Terms as they stand in a text -/

namespace SourceTerm

/-- What the grammar demands of the words of a term. -/
inductive IsWritable : SourceTerm → Prop
  | var {name type} : Lexeme.isIdentifier name.toList → Term.IsType type →
      IsWritable (.var name type)
  | anon : IsWritable .anon
  | const {name type} : Term.IsType type → IsWritable (.const name type)
  | expr {functor args} : Lexeme.isIdentifier functor.toList → functor ≠ "_" →
      (∀ arg ∈ args, IsWritable arg) → IsWritable (.expr functor args)

theorem IsWritable.isIdentifier {term : SourceTerm} (hterm : term.IsWritable) :
    ∀ name ∈ term.variableNames, Lexeme.isIdentifier name.toList := by
  induction hterm with
  | var hname _ => simpa [variableNames] using hname
  | anon => simp [variableNames]
  | const _ => simp [variableNames]
  | expr _ _ _ ih =>
      intro name hname
      rw [variableNames, variableNamesOfEach_eq_flatMap] at hname
      obtain ⟨arg, hmem, harg⟩ := List.mem_flatMap.mp hname
      exact ih arg hmem name harg

variable {names : List String}

/-- Resolving exchanges names for numbers and leaves the other words as they are. -/
theorem IsWritable.isArgument_resolve {term : SourceTerm} (hterm : term.IsWritable) :
    (term.resolve names).IsArgument := by
  induction hterm with
  | var _ htype => exact .var htype
  | anon => exact .anon
  | const htype => exact .const htype
  | expr hfunctor hne _ ih =>
      rw [resolve, resolveEach_eq_map]
      refine .expr hfunctor hne fun arg hmem => ?_
      obtain ⟨source, hsource, rfl⟩ := List.mem_map.mp hmem
      exact ih source hsource

theorem flatMap_variableIndices_resolve {terms : List SourceTerm}
    (hterms : ∀ term ∈ terms, (term.resolve names).variableIndices =
      term.variableNames.map names.idxOf) :
    (terms.map (resolve names)).flatMap Term.variableIndices =
      (terms.flatMap variableNames).map names.idxOf := by
  rw [List.flatMap_map, List.map_flatMap, List.flatMap_def, List.flatMap_def,
    List.map_congr_left hterms]

/-- The induction is on the term, so that it reaches the arguments of an
expression through the list that holds them. -/
theorem variableIndices_resolve : (term : SourceTerm) →
    (term.resolve names).variableIndices = term.variableNames.map names.idxOf
  | .var .. | .anon | .const .. => rfl
  | .expr functor args => by
      have hargs := flatMap_variableIndices_resolve fun arg (_ : arg ∈ args) =>
        variableIndices_resolve arg
      simpa [resolve, Term.variableIndices, variableNames] using hargs

end SourceTerm

namespace SourceAtom

structure IsWritable (atom : SourceAtom) : Prop where
  predicate : Lexeme.isIdentifier atom.predicate.toList
  terms : ∀ term ∈ atom.terms, term.IsWritable

variable {atom : SourceAtom} {names : List String}

theorem IsWritable.isIdentifier (hatom : atom.IsWritable) :
    ∀ name ∈ atom.variableNames, Lexeme.isIdentifier name.toList := by
  intro name hname
  obtain ⟨term, hmem, hterm⟩ := List.mem_flatMap.mp hname
  exact (hatom.terms term hmem).isIdentifier name hterm

/-- An object identifier that is not written is an anonymous slot, so the atom has one in
either case. -/
theorem IsWritable.isAtom_resolve (hatom : atom.IsWritable) : (atom.resolve names).IsAtom := by
  obtain ⟨predicate, oid, args⟩ := atom
  obtain ⟨hpredicate, hterms⟩ := hatom
  have hoid : ((oid.map (SourceTerm.resolve names)).getD .anon).IsArgument := by
    cases oid with
    | none => exact .anon
    | some term => exact (hterms term (by simp [SourceAtom.terms])).isArgument_resolve
  refine .intro hpredicate hoid fun operand hmem => ?_
  obtain ⟨arg, harg, rfl⟩ := List.mem_map.mp hmem
  exact (hterms arg (by simp [SourceAtom.terms, harg])).isArgument_resolve

theorem variableIndices_resolve (atom : SourceAtom) :
    (atom.resolve names).variableIndices = atom.variableNames.map names.idxOf := by
  obtain ⟨predicate, oid, args⟩ := atom
  have hargs := @SourceTerm.flatMap_variableIndices_resolve names args fun arg _ =>
    arg.variableIndices_resolve
  cases oid with
  | none => simpa [resolve, Term.variableIndices, variableNames, terms] using hargs
  | some oid =>
      simp [resolve, Term.variableIndices, variableNames, terms, oid.variableIndices_resolve, hargs]

end SourceAtom

namespace Written

variable {α : Type}

/-! ## What is written -/

theorem isType_of_optional {type : Option String} {text rest : List Char}
    (htype : Optional TypeName type text rest) : Posl.Term.IsType type := by
  intro name hname
  cases htype with
  | none => cases hname
  | some hwritten =>
      obtain rfl := Option.some.inj hname
      obtain ⟨-, -, hword⟩ := hwritten
      exact hword.1

/-- What every writing of an item makes sure of is known of each item in a list. -/
theorem Many.forall_mem {form : Form α} {holds : α → Prop} {values : List α} {text rest : List Char}
    (hform : ∀ value ∈ values, ∀ {text rest}, form value text rest → holds value)
    (hmany : Many form values text rest) : ∀ value ∈ values, holds value := by
  induction hmany with
  | nil => simp
  | cons hfirst _ ih =>
      rw [List.forall_mem_cons] at hform ⊢
      exact ⟨hform.1 hfirst, ih hform.2⟩

theorem Series.forall_mem {item : Form α} {holds : α → Prop} {items : List α}
    {text rest : List Char}
    (hitem : ∀ value ∈ items, ∀ {text rest}, item value text rest → holds value)
    (hseries : Series item items text rest) : ∀ value ∈ items, holds value := by
  obtain ⟨⟨-, hfirst⟩, hothers⟩ := hseries
  rw [List.forall_mem_cons] at hitem ⊢
  refine ⟨hitem.1 hfirst, hothers.forall_mem fun value hmem text rest hwritten => ?_⟩
  obtain ⟨-, -, hvalue⟩ := hwritten
  exact hitem.2 value hmem hvalue

theorem Items.forall_mem {item : Form α} {holds : α → Prop} {items : List α} {text rest : List Char}
    (hitem : ∀ value ∈ items, ∀ {text rest}, item value text rest → holds value)
    (hitems : Items item items text rest) : ∀ value ∈ items, holds value := by
  cases hitems with
  | none => simp
  | some hseries => exact hseries.forall_mem hitem

/-- The induction is on the term, as for `movable_term`. -/
theorem Term.isWritable : {term : SourceTerm} → {text rest : List Char} →
    Term term text rest → term.IsWritable
  | .anon, _, _, _ => .anon
  | .var .., _, _, .named hname htype => .var hname.1 (isType_of_optional htype)
  | .const .., _, _, .number _ htype | .const .., _, _, .string _ htype
  | .const .., _, _, .individual _ _ htype => .const (isType_of_optional htype)
  | .expr _ args, _, _, .expression hfunctor hne _ hargs _ =>
      .expr hfunctor.1 hne (hargs.forall_mem fun arg (_ : arg ∈ args) _ _ harg => harg.isWritable)

theorem Atom.isWritable {atom : SourceAtom} {text rest : List Char}
    (hatom : Atom atom text rest) : atom.IsWritable := by
  cases hatom with
  | name hpredicate => exact ⟨hpredicate.1, by simp [SourceAtom.terms]⟩
  | call hpredicate _ hoid hargs _ =>
      refine ⟨hpredicate.1, fun term hmem => ?_⟩
      rcases List.mem_append.mp hmem with hslot | harg
      · cases hoid with
        | none => simp at hslot
        | some hwritten =>
            obtain rfl : term = _ := by simpa using hslot
            obtain ⟨⟨-, hterm⟩, -⟩ := hwritten
            exact hterm.isWritable
      · exact hargs.forall_mem (fun _ _ _ _ hterm => hterm.isWritable) term harg

theorem isWritable_of_blankAtom {atom : SourceAtom} {text rest : List Char}
    (hatom : Then Blank Atom atom text rest) : atom.IsWritable := by
  obtain ⟨-, hatom⟩ := hatom
  exact hatom.isWritable

theorem isWritable_of_atoms {atoms : List SourceAtom} {text rest : List Char}
    (hatoms : Series Atom atoms text rest) : ∀ atom ∈ atoms, atom.IsWritable :=
  hatoms.forall_mem fun _ _ _ _ hatom => hatom.isWritable

theorem Clause.isWritable {atoms : List SourceAtom} {text rest : List Char}
    (hclause : Clause atoms text rest) : atoms ≠ [] ∧ ∀ atom ∈ atoms, atom.IsWritable := by
  cases hclause with
  | fact hhead _ => simpa using isWritable_of_blankAtom hhead
  | rule hhead _ hbody _ =>
      simpa using And.intro (isWritable_of_blankAtom hhead) (isWritable_of_atoms hbody)

/-- A query has at least one atom, as its goals are a series. -/
theorem Query.isWritable {atoms : List SourceAtom} {text rest : List Char}
    (hquery : Query atoms text rest) : atoms ≠ [] ∧ ∀ atom ∈ atoms, atom.IsWritable := by
  cases hquery with
  | goals hgoals _ =>
      refine ⟨?_, isWritable_of_atoms hgoals⟩
      obtain ⟨-, -⟩ := hgoals
      simp
  | rule hhead _ hbody _ =>
      simpa using And.intro (isWritable_of_blankAtom hhead) (isWritable_of_atoms hbody)

end Written

/-! ## Clauses -/

namespace Clause

/-- The numbers of a clause's variables, from left to right. -/
def variableIndices (clause : Clause) : List Nat := clause.atoms.flatMap Term.variableIndices

/-- A clause and the atoms that were written for it.  From left to right its
variables are those of the atoms, and their numbers tell them apart as their
names do. -/
structure ReadFrom (clause : Clause) (atoms : List SourceAtom) : Prop where
  wellFormed : clause.WellFormed
  lt_length : ∀ index ∈ clause.variableIndices, index < clause.variableNames.length
  mem_indices : ∀ index < clause.variableNames.length, index ∈ clause.variableIndices
  inOrder : InOrder clause.variableIndices
  length_indices : clause.variableIndices.length = (atoms.flatMap SourceAtom.variableNames).length
  index_eq_iff : ∀ i j : Nat, clause.variableIndices[i]? = clause.variableIndices[j]? ↔
    (atoms.flatMap SourceAtom.variableNames)[i]? = (atoms.flatMap SourceAtom.variableNames)[j]?

section

variable (atoms : List SourceAtom)

/-- The numbers of a clause are the places of its names in the table. -/
theorem variableIndices_ofSource : (ofSource atoms).variableIndices =
    (atoms.flatMap SourceAtom.variableNames).map (ofSource atoms).variableNames.idxOf := by
  rw [variableIndices, ofSource, List.flatMap_map, List.map_flatMap]
  simp only [SourceAtom.variableIndices_resolve]

/-- The table lists names by first occurrence, so the numbers count up from zero in that
order. -/
theorem eraseDups_variableIndices_ofSource : (ofSource atoms).variableIndices.eraseDups =
    List.range (ofSource atoms).variableNames.length := by
  rw [variableIndices_ofSource]
  exact eraseDups_map_idxOf _

/-- A number stands where its name was written. -/
theorem getElem?_variableIndices_ofSource (place : Nat) :
    (ofSource atoms).variableIndices[place]?.bind ((ofSource atoms).variableNames[·]?) =
      (atoms.flatMap SourceAtom.variableNames)[place]? := by
  rw [variableIndices_ofSource, List.getElem?_map, Option.bind_map]
  cases hname : (atoms.flatMap SourceAtom.variableNames)[place]? with
  | none => rfl
  | some name =>
      have hmem : name ∈ (ofSource atoms).variableNames :=
        List.mem_eraseDups.mpr (List.mem_of_getElem? hname)
      exact List.getElem?_idxOf hmem

end

theorem wellFormed_ofSource {atoms : List SourceAtom}
    (hatoms : atoms ≠ [] ∧ ∀ atom ∈ atoms, atom.IsWritable) : (ofSource atoms).WellFormed where
  atoms_ne_nil := by simpa [ofSource] using hatoms.1
  isAtom := by
    intro atom hmem
    obtain ⟨source, hsource, rfl⟩ := List.mem_map.mp hmem
    exact (hatoms.2 source hsource).isAtom_resolve
  names_nodup := nodup_eraseDups _
  isIdentifier := by
    intro name hname
    obtain ⟨atom, hmem, hatom⟩ := List.mem_flatMap.mp (List.mem_eraseDups.mp hname)
    exact (hatoms.2 atom hmem).isIdentifier name hatom
  numbered := eraseDups_variableIndices_ofSource atoms

/-- Any writable atoms make a clause that is read from them, whichever entry point found
them. -/
theorem readFrom_ofSource {atoms : List SourceAtom}
    (hatoms : atoms ≠ [] ∧ ∀ atom ∈ atoms, atom.IsWritable) : (ofSource atoms).ReadFrom atoms where
  wellFormed := wellFormed_ofSource hatoms
  lt_length := by
    intro index hindex
    rw [← List.mem_eraseDups, eraseDups_variableIndices_ofSource] at hindex
    exact List.mem_range.mp hindex
  mem_indices := by
    intro index hindex
    rw [← List.mem_eraseDups, eraseDups_variableIndices_ofSource]
    exact List.mem_range.mpr hindex
  inOrder := inOrder_of_eraseDups (eraseDups_variableIndices_ofSource atoms)
  length_indices := by rw [variableIndices_ofSource, List.length_map]
  index_eq_iff := by
    intro i j
    constructor
    · intro hindex
      rw [← getElem?_variableIndices_ofSource, hindex, getElem?_variableIndices_ofSource]
    · intro hname
      rw [variableIndices_ofSource, List.getElem?_map, List.getElem?_map, hname]

/-- A query that is accepted is one of the text's writings, and the clause is read from its
atoms. -/
theorem exists_readFrom_of_parseQuery {text : String} {clause : Clause}
    (hparse : Clause.parseQuery text = .ok clause) :
    ∃ atoms, Whole Query atoms text.toList ∧ clause.ReadFrom atoms := by
  obtain ⟨atoms, hread, rfl⟩ := Except.map_eq_ok_iff.mp hparse
  have hwhole := Grammar.readQuery_eq_ok_iff.mp hread
  cases hwhole with
  | intro hquery hend => exact ⟨atoms, .intro hquery hend, readFrom_ofSource hquery.isWritable⟩

/-- All that parsing ensures of a clause, for those who do not ask what was written. -/
theorem wellFormed_of_parseQuery {text : String} {clause : Clause}
    (hparse : Clause.parseQuery text = .ok clause) : clause.WellFormed := by
  obtain ⟨atoms, -, hread⟩ := exists_readFrom_of_parseQuery hparse
  exact hread.wellFormed

theorem exists_readFrom_of_parse {text : String} {clause : Clause}
    (hparse : Clause.parse text = .ok clause) :
    ∃ atoms, Whole Written.Clause atoms text.toList ∧ clause.ReadFrom atoms := by
  obtain ⟨atoms, hread, rfl⟩ := Except.map_eq_ok_iff.mp hparse
  have hwhole := Grammar.readClause_eq_ok_iff.mp hread
  cases hwhole with
  | intro hclause hend => exact ⟨atoms, .intro hclause hend, readFrom_ofSource hclause.isWritable⟩

theorem exists_readFrom_of_parseProgram {text : String} {clauses : List Clause}
    (hparse : Clause.parseProgram text = .ok clauses) :
    ∃ sources, Whole (Many Written.Clause) sources text.toList ∧
      List.Forall₂ ReadFrom clauses sources := by
  obtain ⟨sources, hread, rfl⟩ := Except.map_eq_ok_iff.mp hparse
  have hwhole := Grammar.readProgram_eq_ok_iff.mp hread
  cases hwhole with
  | intro hclauses hend =>
      refine ⟨sources, .intro hclauses hend, ?_⟩
      rw [List.forall₂_map_left_iff, List.forall₂_same]
      exact hclauses.forall_mem fun _ _ _ _ hclause => readFrom_ofSource hclause.isWritable

/-- Whatever is read from a text, as a query, a clause or a program, is
well-formed and numbers the variables that the text has. -/
theorem readFrom_of_read (text : String) :
    (∀ clause, Clause.parseQuery text = .ok clause →
      ∃ atoms, Whole Query atoms text.toList ∧ clause.ReadFrom atoms) ∧
    (∀ clause, Clause.parse text = .ok clause →
      ∃ atoms, Whole Written.Clause atoms text.toList ∧ clause.ReadFrom atoms) ∧
    (∀ clauses, Clause.parseProgram text = .ok clauses →
      ∃ sources, Whole (Many Written.Clause) sources text.toList ∧
        List.Forall₂ ReadFrom clauses sources) :=
  ⟨fun _ => exists_readFrom_of_parseQuery, fun _ => exists_readFrom_of_parse,
    fun _ => exists_readFrom_of_parseProgram⟩

/-- A variable in an object identifier's place, in a nested expression and again
in another atom. -/
theorem readFrom_rule :
    let text := "p(?X^f(?Y, ?X)) :- q(?Y:T, _, ?Z)."
    let clause : Clause :=
      { atoms := [
          .atom "p" [.var 0 none, .expr "f" [.var 1 none, .var 0 none]],
          .atom "q" [.anon, .var 1 (some "T"), .anon, .var 2 none]]
        variableNames := ["X", "Y", "Z"] }
    (Clause.parseQuery text = .ok clause ∧
      ∃ atoms, Whole Query atoms text.toList ∧ clause.ReadFrom atoms) ∧
    (Clause.parse text = .ok clause ∧
      ∃ atoms, Whole Written.Clause atoms text.toList ∧ clause.ReadFrom atoms) ∧
    (Clause.parseProgram text = .ok [clause] ∧
      ∃ sources, Whole (Many Written.Clause) sources text.toList ∧
        List.Forall₂ ReadFrom [clause] sources) := by
  intro text clause
  obtain ⟨hquery, hclause, hprogram⟩ := readFrom_of_read text
  have hasQuery : Clause.parseQuery text = .ok clause := by decide +kernel
  have hasClause : Clause.parse text = .ok clause := by decide +kernel
  have hasProgram : Clause.parseProgram text = .ok [clause] := by decide +kernel
  exact ⟨⟨hasQuery, hquery _ hasQuery⟩, ⟨hasClause, hclause _ hasClause⟩,
    ⟨hasProgram, hprogram _ hasProgram⟩⟩

end Clause

end Posl
