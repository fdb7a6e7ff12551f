import Mathlib.Data.List.Basic
import Posl.Proofs.Grammar.ErrorPosition

/-!
# Programs one after the other

A program that is put behind another one, on a line of its own, is read as it is
read alone: its clauses come behind those of the first program, and an error in it
stands as many lines further down.
-/

namespace Posl

open Grammar Written

namespace Reader

variable {α : Type} {reader : Reader α}

/-! ## Repetitions -/

/-- A reader whose values take at least one character, and that finds none at the end
of the text. -/
structure Productive (reader : Reader α) : Prop where
  length_lt : ∀ {value text rest}, reader text = .ok value rest → rest.length < text.length
  at_end : ∃ stop, reader [] = .mismatch stop

theorem manyUpTo_succ (reader : Reader α) (count : Nat) (text : List Char) :
    manyUpTo reader (count + 1) text =
      match reader text with
      | .ok value rest => (manyUpTo reader count rest).map (value :: ·)
      | .mismatch _ => .ok [] text
      | .failure rest => .failure rest := by
  rw [manyUpTo, bind_apply, attempt]
  cases reader text with
  | ok value rest =>
      dsimp only [Outcome.bind]
      rw [bind_apply]
      cases manyUpTo reader count rest <;> rfl
  | mismatch rest => rfl
  | failure rest => rfl

namespace Productive

theorem manyUpTo_nil (hreader : reader.Productive) (count : Nat) :
    manyUpTo reader count [] = .ok [] [] := by
  obtain ⟨stop, hend⟩ := hreader.at_end
  cases count with
  | zero => rfl
  | succ count => rw [manyUpTo_succ, hend]

/-- No text uses up a count that is as large as its length. -/
theorem manyUpTo_eq_many (hreader : reader.Productive) {count : Nat} {text : List Char}
    (hcount : text.length ≤ count) : manyUpTo reader count text = many reader text := by
  match text, count with
  | [], count => rw [many, hreader.manyUpTo_nil, hreader.manyUpTo_nil]
  | c :: text, count + 1 =>
      rw [many, List.length_cons, manyUpTo_succ, manyUpTo_succ]
      cases hread : reader (c :: text) with
      | mismatch rest => rfl
      | failure rest => rfl
      | ok value rest =>
          have hless : rest.length < text.length + 1 := hreader.length_lt hread
          have hfew : text.length ≤ count := Nat.le_of_succ_le_succ hcount
          have hrest : rest.length ≤ text.length := Nat.le_of_lt_succ hless
          dsimp only
          rw [hreader.manyUpTo_eq_many (Nat.le_trans hrest hfew),
            hreader.manyUpTo_eq_many hrest]
termination_by text.length

/-- A repetition is a first value and the repetition behind it, or nothing. -/
theorem many_eq (hreader : reader.Productive) (text : List Char) :
    many reader text =
      match reader text with
      | .ok value rest => (many reader rest).map (value :: ·)
      | .mismatch _ => .ok [] text
      | .failure rest => .failure rest := by
  rw [← hreader.manyUpTo_eq_many (Nat.le_succ text.length), manyUpTo_succ]
  cases hread : reader text with
  | mismatch rest => rfl
  | failure rest => rfl
  | ok value rest =>
      dsimp only
      rw [hreader.manyUpTo_eq_many (Nat.le_of_lt (hreader.length_lt hread))]

end Productive

end Reader

/-! ## Reading on -/

namespace Grammar

theorem productive_clause : Reader.Productive clause where
  length_lt := fun hread => (sound_clause.of_ok hread).length_lt
  at_end := ⟨[], clause_of_blank .done⟩

/-- A program is a first clause and the program behind it, or blank space. -/
theorem program_eq (text : List Char) :
    program text =
      match clause text with
      | .ok atoms rest => (program rest).map (atoms :: ·)
      | .mismatch _ => .ok [] (skipBlank text)
      | .failure rest => .failure rest := by
  change entire (Reader.many clause) text = _
  rw [entire_apply, productive_clause.many_eq]
  cases clause text with
  | mismatch rest => rfl
  | failure rest => rfl
  | ok atoms rest =>
      change _ = (entire (Reader.many clause) rest).map _
      dsimp only
      rw [entire_apply]
      cases Reader.many clause rest <;> rfl

/-- Blank space before a clause is of no account. -/
theorem clause_eq_of_blank {text next : List Char} (hblank : Blank text next) :
    clause text = clause next := by
  have hatom : atom text = atom next := by
    simp only [atom, Reader.bind_apply, blank, hblank.skipBlank_eq]
  simp only [clause, Reader.bind_apply, hatom]

theorem program_eq_of_blank {text next : List Char} (hblank : Blank text next) :
    program text = program next := by
  rw [program_eq text, program_eq next, clause_eq_of_blank hblank, hblank.skipBlank_eq]

/-- Clauses that are written at the start of a text come first, and the reading goes
on behind them. -/
theorem program_of_clauses {clauses : List (List SourceAtom)} {text rest : List Char}
    (hclauses : Many Written.Clause clauses text rest) :
    program text = (program rest).map (clauses ++ ·) := by
  induction hclauses with
  | @nil rest => cases program rest <;> rfl
  | @cons first others text next rest hfirst _ ih =>
      rw [program_eq, clause_of_clause hfirst]
      dsimp only
      rw [ih]
      cases program rest <;> rfl

/-- A whole program leaves the reading of what stands on the next line as it is. -/
theorem program_append {clauses : List (List SourceAtom)} {first : List Char}
    (hfirst : Whole (Many Written.Clause) clauses first) (second : List Char) :
    program (first ++ '\n' :: second) = (program second).map (clauses ++ ·) := by
  obtain ⟨hclauses, hend⟩ := hfirst
  obtain ⟨front, rfl, hfront⟩ := (movable_clauses clauses).exists_front hclauses
  obtain ⟨blank, hrest, hblank⟩ := hend.exists_front (by simp)
  rw [List.append_nil] at hrest
  have hline : Blank (blank ++ '\n' :: second) second :=
    (hblank ('\n' :: second) (.inr .lineFeed)).trans (.space (by simp) .done)
  calc
    program (front ++ _ ++ '\n' :: second) = program (front ++ (blank ++ '\n' :: second)) := by
      rw [hrest, List.append_assoc]
    _ = (program (blank ++ '\n' :: second)).map (clauses ++ ·) :=
      program_of_clauses (hfront _)
    _ = (program second).map (clauses ++ ·) := by
      rw [program_eq_of_blank hline]

end Grammar

/-! ## Positions further down -/

namespace Position

def moveDown (lines : Nat) (position : Position) : Position :=
  { position with line := position.line + lines }

/-- The lines that stand before a text move its positions down. -/
theorem after_lineFeed_append (lead passed : List Char) :
    after (lead ++ '\n' :: passed) = (after passed).moveDown (lead.count '\n' + 1) := by
  rcases exists_last_line passed with hnone | ⟨lines, last, rfl, hlast⟩
  · rw [after_of_lineFeed hnone, after_of_no_lineFeed hnone]
    simp [moveDown]
  · have hsplit : lead ++ '\n' :: (lines ++ '\n' :: last) =
        lead ++ '\n' :: lines ++ '\n' :: last := by simp
    rw [hsplit, after_of_lineFeed hlast, after_of_lineFeed hlast]
    simp only [moveDown, List.count_append, List.count_cons_self, List.count_nil, mk.injEq,
      and_true]
    omega

/-- Behind a text and a line feed, a position is as many lines further down as the text and
the line feed have line feeds. -/
theorem ofRest_lineFeed_append (lead : List Char) {text rest : List Char}
    (hrest : rest.length ≤ text.length) :
    ofRest (lead ++ '\n' :: text) rest = (ofRest text rest).moveDown (lead.count '\n' + 1) := by
  have htake : (lead ++ '\n' :: text).take ((lead ++ '\n' :: text).length - rest.length) =
      lead ++ '\n' :: text.take (text.length - rest.length) := by
    have hlength : (lead ++ '\n' :: text).length - rest.length =
        lead.length + (text.length - rest.length + 1) := by
      rw [List.length_append, List.length_cons]
      omega
    rw [hlength, List.take_length_add_append, List.take_succ_cons]
  rw [ofRest, htake, after_lineFeed_append, ofRest]

end Position

namespace SyntaxError

def moveDown (lines : Nat) : SyntaxError → SyntaxError
  | .empty => .empty
  | .expected what position => .expected what (position.moveDown lines)
  | .unexpected what position => .unexpected what (position.moveDown lines)

end SyntaxError

def Outcome.rest {α : Type} : Outcome α → List Char
  | .ok _ rest | .mismatch rest | .failure rest => rest

/-- What a sound reader leaves is no longer than the text, with an error as without. -/
theorem Outcome.Meets.length_rest_le {α : Type} {form : Form α} {text : List Char}
    {outcome : Outcome α} (hmeets : outcome.Meets form text) (hmove : Movable form) :
    outcome.rest.length ≤ text.length := by
  have hstuck : ∀ {rest}, Stuck form text rest → rest.length ≤ text.length := by
    rintro rest ⟨front, rfl, -⟩
    simp
  cases outcome with
  | ok value rest => exact (hmove value).length_le hmeets
  | mismatch rest => exact hstuck hmeets
  | failure rest => exact hstuck hmeets

namespace Grammar

theorem length_rest_program_le (text : List Char) : (program text).rest.length ≤ text.length := by
  have hclauses := (sound_clauses text).length_rest_le movable_clauses
  change (entire (Reader.many clause) text).rest.length ≤ text.length
  rw [entire_apply]
  cases hread : Reader.many clause text with
  | ok clauses rest =>
      rw [hread] at hclauses
      exact Nat.le_trans (blank_skipBlank rest).length_le hclauses
  | mismatch rest => rwa [hread] at hclauses
  | failure rest => rwa [hread] at hclauses

/-- A program on the lines behind another one gives its clauses after those, or its
error as many lines further down. -/
theorem readProgram_append {first : String} {clauses : List (List SourceAtom)}
    (hfirst : readProgram first = .ok clauses) (second : String) :
    readProgram (first ++ "\n" ++ second) =
      ((readProgram second).map (clauses ++ ·)).mapError
        (·.moveDown (first.toList.count '\n' + 1)) := by
  have hread := program_append (readProgram_eq_ok_iff.mp hfirst) second.toList
  have hposition := Position.ofRest_lineFeed_append first.toList
    (length_rest_program_le second.toList)
  have htext : (first ++ "\n" ++ second).toList = first.toList ++ '\n' :: second.toList := by
    simp
  rw [readProgram, readProgram, Reader.readAll, Reader.readAll, htext, hread]
  cases hsecond : program second.toList with
  | ok others rest =>
      rw [hsecond, Outcome.rest] at hposition
      cases rest with
      | nil => rfl
      | cons c rest => exact congrArg (Except.error ∘ SyntaxError.unexpected _) hposition
  | mismatch rest =>
      rw [hsecond, Outcome.rest] at hposition
      exact congrArg (Except.error ∘ SyntaxError.expected _) hposition
  | failure rest =>
      rw [hsecond, Outcome.rest] at hposition
      exact congrArg (Except.error ∘ SyntaxError.expected _) hposition

end Grammar

namespace Clause

/-- Programs put one after the other, each on lines of its own, are read as one whose
clauses are those of both.  What is wrong in the second is wrong as many lines further
down as the first has, and for the same reason. -/
theorem parseProgram_append {first : String} {clauses : List Clause}
    (hfirst : Clause.parseProgram first = .ok clauses) (second : String) :
    let whole := first ++ "\n" ++ second
    let lines := first.toList.count '\n'
    (∀ others, Clause.parseProgram second = .ok others →
      Clause.parseProgram whole = .ok (clauses ++ others)) ∧
    (∀ what line column,
      Clause.parseProgram second = .error (.expected what ⟨line, column⟩) →
      Clause.parseProgram whole = .error (.expected what ⟨line + lines + 1, column⟩)) ∧
    ∀ what line column,
      Clause.parseProgram second = .error (.unexpected what ⟨line, column⟩) →
      Clause.parseProgram whole = .error (.unexpected what ⟨line + lines + 1, column⟩) := by
  intro whole lines
  obtain ⟨sources, hread, rfl⟩ := Except.map_eq_ok_iff.mp hfirst
  have happend := Grammar.readProgram_append hread second
  refine ⟨fun others hsecond => ?_, fun what line column hsecond => ?_,
    fun what line column hsecond => ?_⟩
  · obtain ⟨moreSources, hmore, rfl⟩ := Except.map_eq_ok_iff.mp hsecond
    rw [parseProgram, happend, hmore, ← List.map_append]
    rfl
  · rw [parseProgram, happend, Except.map_eq_error_iff.mp hsecond]
    rfl
  · rw [parseProgram, happend, Except.map_eq_error_iff.mp hsecond]
    rfl

/-- The comment that the first program ends in does not swallow the second. -/
theorem parseProgram_append_comment :
    let first := "p(?X). % as\n% above"
    let left : Clause := { atoms := [.atom "p" [.anon, .var 0 none]], variableNames := ["X"] }
    let right : Clause := { atoms := [.atom "q" [.anon, .var 0 none]], variableNames := ["Y"] }
    Clause.parseProgram first = .ok [left] ∧
      Clause.parseProgram "q(?Y)." = .ok [right] ∧
      Clause.parseProgram (first ++ "\n" ++ "q(?Y).") = .ok [left, right] ∧
      Clause.parseProgram "q(?Y).\nr(" = .error (.expected .clause ⟨2, 3⟩) ∧
      Clause.parseProgram (first ++ "\n" ++ "q(?Y).\nr(") = .error (.expected .clause ⟨4, 3⟩) := by
  intro first left right
  have hfirst : Clause.parseProgram first = .ok [left] := by decide +kernel
  have hright : Clause.parseProgram "q(?Y)." = .ok [right] := by decide +kernel
  have hwrong : Clause.parseProgram "q(?Y).\nr(" = .error (.expected .clause ⟨2, 3⟩) := by
    decide +kernel
  have hlines : first.toList.count '\n' = 1 := by decide +kernel
  have hmoved := (parseProgram_append hfirst _).2.1 _ _ _ hwrong
  rw [hlines] at hmoved
  exact ⟨hfirst, hright, (parseProgram_append hfirst _).1 _ hright, hwrong, hmoved⟩

end Clause

end Posl
