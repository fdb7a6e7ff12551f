import Posl.Parse
import Posl.Proofs.Grammar.Complete

/-!
# The texts that are accepted

A whole text is read as a value exactly where it is a writing of that value with
nothing but blank space behind it.  This holds of clauses, queries and programs, so
that what one of them makes of a text can be compared with what another makes of it.
-/

namespace Posl

open Grammar Written

variable {α : Type}

namespace Grammar

def entire (reader : Reader α) : Reader α := do
  let value ← reader
  blank
  return value

theorem entire_apply (reader : Reader α) (text : List Char) :
    entire reader text =
      (reader text).bind fun value rest => .ok value (skipBlank rest) := rfl

/-- Reading a whole text is the same as finding a writing in it, if the reader is
sound and reads whatever ends in blank space. -/
theorem readAll_entire_iff {reader : Reader α} {form : Form α} (hsound : reader.Sound form)
    (hread : ∀ {value text rest}, form value text rest → Blank rest [] →
      reader text = .ok value rest)
    (what : Expectation) {text : List Char} {value : α} :
    (entire reader).readAll what text = .ok value ↔ Whole form value text := by
  constructor
  · intro hok
    rw [Reader.readAll, entire_apply] at hok
    cases hcase : reader text with
    | mismatch rest => simp [hcase, Outcome.bind] at hok
    | failure rest => simp [hcase, Outcome.bind] at hok
    | ok found rest =>
        cases hskip : skipBlank rest with
        | cons c tail => simp [hcase, hskip, Outcome.bind] at hok
        | nil =>
            obtain rfl : found = value := by simpa [hcase, hskip, Outcome.bind] using hok
            exact .intro (hsound.of_ok hcase) (blank_nil_iff.mpr hskip)
  · intro hwhole
    obtain ⟨hform, hend⟩ := hwhole
    simp [Reader.readAll, entire_apply, hread hform hend, blank_nil_iff.mp hend, Outcome.bind]

/-- The start of an atom is no blank space. -/
theorem skipBlank_ne_nil {atom : SourceAtom} {text rest : List Char}
    (hatom : Then Blank Written.Atom atom text rest) : skipBlank text ≠ [] := by
  obtain ⟨hblank, hatom⟩ := hatom
  obtain ⟨c, tail, rfl, hc⟩ := startsSolid_atom hatom
  simp [hblank.skipBlank_solid hc]

/-- A text of blank space only holds no clause, so that it can be refused before it is
read. -/
theorem skipBlank_ne_nil_of_clause {atoms : List SourceAtom} {text : List Char}
    (hwhole : Whole Written.Clause atoms text) : skipBlank text ≠ [] := by
  obtain ⟨hclause, -⟩ := hwhole
  cases hclause with
  | fact hhead _ => exact skipBlank_ne_nil hhead
  | rule hhead _ _ _ => exact skipBlank_ne_nil hhead

theorem skipBlank_ne_nil_of_query {atoms : List SourceAtom} {text : List Char}
    (hwhole : Whole Query atoms text) : skipBlank text ≠ [] := by
  obtain ⟨hquery, -⟩ := hwhole
  cases hquery with
  | goals hgoals _ =>
      obtain ⟨hfirst, -⟩ := hgoals
      exact skipBlank_ne_nil hfirst
  | rule hhead _ _ _ => exact skipBlank_ne_nil hhead

/-- A text of blank space only is refused with an error of its own, which makes no
difference to what is accepted. -/
theorem readOne_eq_ok_iff {reader : Reader (List SourceAtom)} {what : Expectation}
    {whole : List SourceAtom → List Char → Prop}
    (hread : ∀ {atoms text}, reader.readAll what text = .ok atoms ↔ whole atoms text)
    (hne : ∀ {atoms text}, whole atoms text → skipBlank text ≠ [])
    {atoms : List SourceAtom} {text : String} :
    readOne reader what text = .ok atoms ↔ whole atoms text.toList := by
  rw [← hread, readOne]
  split
  · next hblank =>
      constructor
      · intro herror
        simp at herror
      · intro hok
        exact absurd hblank (hne (hread.mp hok))
  · rfl

theorem readClause_eq_ok_iff {atoms : List SourceAtom} {text : String} :
    readClause text = .ok atoms ↔ Whole Written.Clause atoms text.toList :=
  readOne_eq_ok_iff (readAll_entire_iff sound_clause (fun hclause _ => clause_of_clause hclause) _)
    skipBlank_ne_nil_of_clause

theorem readQuery_eq_ok_iff {atoms : List SourceAtom} {text : String} :
    readQuery text = .ok atoms ↔ Whole Query atoms text.toList := by
  rw [readQuery, query_eq]
  exact readOne_eq_ok_iff (readAll_entire_iff sound_goals goals_of_query _)
    skipBlank_ne_nil_of_query

/-- A program may be empty, so blank space alone is accepted here. -/
theorem readProgram_eq_ok_iff {clauses : List (List SourceAtom)} {text : String} :
    readProgram text = .ok clauses ↔ Whole (Many Written.Clause) clauses text.toList :=
  readAll_entire_iff sound_clauses clauses_of_clauses _

end Grammar

theorem Except.map_eq_ok_iff {ε β : Type} {f : α → β} {result : Except ε α} {value : β} :
    result.map f = .ok value ↔ ∃ found, result = .ok found ∧ f found = value := by
  cases result <;> simp [Except.map]

namespace Clause

/-- What is written as a clause is accepted as the clause that the writing stands for. -/
theorem parse_of_whole {atoms : List SourceAtom} {text : String}
    (hwhole : Whole Written.Clause atoms text.toList) : Clause.parse text = .ok (ofSource atoms) := by
  rw [Clause.parse, readClause_eq_ok_iff.mpr hwhole, Except.map]

theorem parseQuery_of_whole {goals : List SourceAtom} {text : String}
    (hwhole : Whole Query goals text.toList) : Clause.parseQuery text = .ok (ofSource goals) := by
  rw [Clause.parseQuery, readQuery_eq_ok_iff.mpr hwhole, Except.map]

theorem parseProgram_of_whole {clauses : List (List SourceAtom)} {text : String}
    (hwhole : Whole (Many Written.Clause) clauses text.toList) :
    Clause.parseProgram text = .ok (clauses.map ofSource) := by
  rw [Clause.parseProgram, readProgram_eq_ok_iff.mpr hwhole, Except.map]

/-- A text is accepted exactly where the grammar derives it, as a clause, as a
query and as a program, and what is returned is what the derivation writes. -/
theorem parse_eq_ok_iff_written (text : String) :
    (∀ clause, Clause.parse text = .ok clause ↔
      ∃ atoms, Whole Written.Clause atoms text.toList ∧ Clause.ofSource atoms = clause) ∧
    (∀ clause, Clause.parseQuery text = .ok clause ↔
      ∃ atoms, Whole Query atoms text.toList ∧ Clause.ofSource atoms = clause) ∧
    (∀ clauses, Clause.parseProgram text = .ok clauses ↔
      ∃ sources, Whole (Many Written.Clause) sources text.toList ∧
        sources.map Clause.ofSource = clauses) := by
  refine ⟨fun clause => ?_, fun clause => ?_, fun clauses => ?_⟩
  · rw [Clause.parse, Except.map_eq_ok_iff]
    simp only [readClause_eq_ok_iff]
  · rw [Clause.parseQuery, Except.map_eq_ok_iff]
    simp only [readQuery_eq_ok_iff]
  · rw [Clause.parseProgram, Except.map_eq_ok_iff]
    simp only [readProgram_eq_ok_iff]

end Clause

/-! ## Agreement of the entry points -/

namespace Written

/-- A program of one clause is that clause. -/
theorem many_singleton_iff {form : Form α} {value : α} {text rest : List Char} :
    Many form [value] text rest ↔ form value text rest := by
  constructor
  · intro hmany
    cases hmany with
    | cons hfirst hothers =>
        cases hothers with
        | nil => exact hfirst
  · exact fun hform => .cons hform .nil

/-- A clause is a query with its period. -/
theorem Clause.query {atoms : List SourceAtom} {text rest : List Char}
    (hclause : Written.Clause atoms text rest) : Query atoms text rest := by
  cases hclause with
  | fact hhead hperiod => exact .goals (.intro hhead .nil) (.present hperiod)
  | rule hhead harrow hbody hperiod => exact .rule hhead harrow hbody (.present hperiod)

theorem Whole.imp {β : Type} {form : Form α} {other : Form β} {value : α} {target : β}
    (himp : ∀ {text rest}, form value text rest → other target text rest) {text : List Char}
    (hwhole : Whole form value text) : Whole other target text := by
  obtain ⟨hform, hend⟩ := hwhole
  exact .intro (himp hform) hend

end Written

namespace Grammar

theorem readProgram_singleton_iff {atoms : List SourceAtom} {text : String} :
    readProgram text = .ok [atoms] ↔ readClause text = .ok atoms := by
  rw [readProgram_eq_ok_iff, readClause_eq_ok_iff]
  exact ⟨.imp many_singleton_iff.mp, .imp many_singleton_iff.mpr⟩

theorem readQuery_of_readClause {atoms : List SourceAtom} {text : String}
    (hread : readClause text = .ok atoms) : readQuery text = .ok atoms := by
  rw [readClause_eq_ok_iff] at hread
  rw [readQuery_eq_ok_iff]
  exact hread.imp Written.Clause.query

end Grammar

namespace Clause

/-- A text is a clause exactly where it is a program of that clause alone, and then it
is also a query, with the same atoms. -/
theorem parsers_agree (text : String) (clause : Clause) :
    (Clause.parse text = .ok clause ↔ Clause.parseProgram text = .ok [clause]) ∧
      (Clause.parse text = .ok clause → Clause.parseQuery text = .ok clause) := by
  constructor
  · rw [Clause.parse, Clause.parseProgram, Except.map_eq_ok_iff, Except.map_eq_ok_iff]
    constructor
    · rintro ⟨atoms, hread, rfl⟩
      exact ⟨[atoms], readProgram_singleton_iff.mpr hread, rfl⟩
    · rintro ⟨sources, hread, hsources⟩
      obtain ⟨atoms, rfl, hclause⟩ := List.map_eq_singleton_iff.mp hsources
      exact ⟨atoms, readProgram_singleton_iff.mp hread, hclause⟩
  · intro hparse
    obtain ⟨atoms, hread, rfl⟩ := Except.map_eq_ok_iff.mp hparse
    rw [Clause.parseQuery, readQuery_of_readClause hread, Except.map]

end Clause

end Posl
