import Posl.Proofs.Grammar.Acceptance

/-!
# Where errors are

The position of an error is a place in the text, and only one.  The text up to
there has nothing wrong in it: some continuation is accepted, as a query, a
clause or a program, whichever was to be read.
-/

namespace Posl

open Grammar Written

variable {α : Type}

namespace Position

/-- The place right behind a piece of text.  Its line counts the line feeds of
the piece, and its column the characters after the last of them. -/
inductive Marks : Position → List Char → Prop
  | firstLine {passed} : '\n' ∉ passed → Marks ⟨1, 1 + passed.length⟩ passed
  | laterLine {lines last} : '\n' ∉ last →
      Marks ⟨1 + (lines ++ ['\n']).count '\n', 1 + last.length⟩ (lines ++ '\n' :: last)

/-- Passing characters of one line moves on by as many columns. -/
theorem after_append_of_no_lineFeed (passed : List Char) {more : List Char} (hmore : '\n' ∉ more) :
    after (passed ++ more) = ⟨(after passed).line, (after passed).column + more.length⟩ := by
  have hcount : more.count '\n' = 0 := List.count_eq_zero.mpr hmore
  have hkept : ∀ c ∈ more.reverse, (c != '\n') = true := by
    intro c hmem
    have hne : c ≠ '\n' := fun heq => hmore (heq ▸ List.mem_reverse.mp hmem)
    simpa using hne
  rw [after, after, List.count_append, List.reverse_append, List.takeWhile_append_of_pos hkept]
  rw [hcount, List.length_append, List.length_reverse, Position.mk.injEq]
  refine ⟨rfl, ?_⟩
  dsimp only
  omega

theorem after_of_no_lineFeed {passed : List Char} (hpassed : '\n' ∉ passed) :
    after passed = ⟨1, 1 + passed.length⟩ :=
  after_append_of_no_lineFeed [] hpassed

/-- The line is one more than the line feeds before a place, and the column counts from the
last of them. -/
theorem after_of_lineFeed {lines last : List Char} (hlast : '\n' ∉ last) :
    after (lines ++ '\n' :: last) =
      ⟨1 + (lines ++ ['\n']).count '\n', 1 + last.length⟩ := by
  have hlines : after (lines ++ ['\n']) = ⟨1 + (lines ++ ['\n']).count '\n', 1⟩ := by
    simp [after, Nat.add_comm]
  rw [List.append_cons, after_append_of_no_lineFeed _ hlast, hlines]

/-- A piece of text without its last line, if it has more than one. -/
theorem exists_last_line (passed : List Char) :
    '\n' ∉ passed ∨ ∃ lines last, passed = lines ++ '\n' :: last ∧ '\n' ∉ last := by
  induction passed with
  | nil => exact .inl (by simp)
  | cons c passed ih =>
      rcases ih with hnone | ⟨lines, last, rfl, hlast⟩
      · by_cases hfeed : c = '\n'
        · exact .inr ⟨[], passed, by simp [hfeed], hnone⟩
        · exact .inl (by simp [hnone, Ne.symm hfeed])
      · exact .inr ⟨c :: lines, last, rfl, hlast⟩

theorem marks_iff {position : Position} {passed : List Char} :
    position.Marks passed ↔ after passed = position := by
  constructor
  · intro hmarks
    cases hmarks with
    | firstLine hpassed => exact after_of_no_lineFeed hpassed
    | laterLine hlast => exact after_of_lineFeed hlast
  · rintro rfl
    rcases exists_last_line passed with hpassed | ⟨lines, last, rfl, hlast⟩
    · rw [after_of_no_lineFeed hpassed]
      exact .firstLine hpassed
    · rw [after_of_lineFeed hlast]
      exact .laterLine hlast

/-- Going on in a text changes the position: the line grows with a line feed, and
the column without one. -/
theorem eq_nil_of_after_append {passed more : List Char}
    (hafter : after (passed ++ more) = after passed) : more = [] := by
  have hlines : passed.count '\n' + more.count '\n' = passed.count '\n' := by
    simpa [after] using congrArg Position.line hafter
  have hmore : '\n' ∉ more := List.count_eq_zero.mp (by omega)
  rw [after_append_of_no_lineFeed _ hmore] at hafter
  have hcolumn : (after passed).column + more.length = (after passed).column :=
    congrArg Position.column hafter
  exact List.length_eq_zero_iff.mp (by omega)

/-- No two places in one text have the same position. -/
theorem append_inj_of_after {passed rest other left : List Char}
    (htext : passed ++ rest = other ++ left) (hafter : after passed = after other) :
    passed = other ∧ rest = left := by
  rcases List.append_eq_append_iff.mp htext with ⟨more, rfl, rfl⟩ | ⟨more, rfl, rfl⟩
  · obtain rfl := eq_nil_of_after_append hafter.symm
    simp
  · obtain rfl := eq_nil_of_after_append hafter
    simp

end Position

namespace Grammar

/-- A piece of the text that can be continued to a writing of the form, and the
position behind it. -/
def StopsAt (form : Form α) (text : List Char) (position : Position) : Prop :=
  ∃ passed rest, text = passed ++ rest ∧ position = .after passed ∧
    ∃ more value, Whole form value (passed ++ more)

theorem stopsAt_of_stuck {form : Form α} {text rest : List Char} (hstuck : Stuck form text rest) :
    StopsAt form text (.ofRest text rest) := by
  obtain ⟨front, rfl, more, value, hmore⟩ := hstuck
  refine ⟨front, rest, rfl, Position.ofRest_append front rest, more, value, ?_⟩
  have hform := hmore []
  rw [List.append_nil] at hform
  exact .intro hform .done

/-- A writing and the blank space after it need no continuation.  A comment that
runs up to the position has ended there if nothing follows. -/
theorem stopsAt_skipBlank {form : Form α} (hmove : Movable form) {value : α}
    {text rest : List Char} (hform : form value text rest) :
    StopsAt form text (.ofRest text (skipBlank rest)) := by
  obtain ⟨front, rfl, hfront⟩ := (hmove value).exists_front hform
  obtain ⟨lead, hrest, hlead⟩ := skipBlank_exists_front rest
  have htext : front ++ rest = front ++ lead ++ skipBlank rest := by
    rw [List.append_assoc, ← hrest]
  refine ⟨front ++ lead, skipBlank rest, htext, ?_, [], value, ?_⟩
  · rw [htext, Position.ofRest_append]
  · have hblank := hlead [] (.inr .nil)
    rw [List.append_nil] at hblank
    rw [List.append_nil]
    exact .intro (hfront lead) hblank

/-- An error comes from the reader itself or from what is left behind it, and both leave a
piece that can be completed. -/
theorem stopsAt_of_readAll_entire {reader : Reader α} {form : Form α}
    (hsound : reader.Sound form) (hmove : Movable form) {what : Expectation} {text : List Char}
    {error : SyntaxError} (herror : (entire reader).readAll what text = .error error) :
    ∃ position, error.position? = some position ∧ StopsAt form text position := by
  rw [Reader.readAll, entire_apply] at herror
  cases hcase : reader text with
  | mismatch rest =>
      obtain rfl : SyntaxError.expected what _ = error := by
        simpa [hcase, Outcome.bind] using herror
      exact ⟨_, rfl, stopsAt_of_stuck (hsound.of_mismatch hcase)⟩
  | failure rest =>
      obtain rfl : SyntaxError.expected what _ = error := by
        simpa [hcase, Outcome.bind] using herror
      exact ⟨_, rfl, stopsAt_of_stuck (hsound.of_failure hcase)⟩
  | ok value rest =>
      cases hskip : skipBlank rest with
      | nil => simp [hcase, hskip, Outcome.bind] at herror
      | cons c tail =>
          obtain rfl : SyntaxError.unexpected what _ = error := by
            simpa [hcase, hskip, Outcome.bind] using herror
          rw [← hskip]
          exact ⟨_, rfl, stopsAt_skipBlank hmove (hsound.of_ok hcase)⟩

theorem stopsAt_of_readOne {reader : Reader (List SourceAtom)} {form : Form (List SourceAtom)}
    (hsound : reader.Sound form) (hmove : Movable form) {what : Expectation} {text : String}
    {error : SyntaxError} {position : Position}
    (herror : readOne (entire reader) what text = .error error)
    (hposition : error.position? = some position) : StopsAt form text.toList position := by
  rw [readOne] at herror
  split at herror
  · cases herror
    simp [SyntaxError.position?] at hposition
  · obtain ⟨found, hfound, hstops⟩ := stopsAt_of_readAll_entire hsound hmove herror
    obtain rfl : position = found := Option.some.inj (hposition.symm.trans hfound)
    exact hstops

theorem stopsAt_of_readClause {text : String} {error : SyntaxError} {position : Position}
    (herror : readClause text = .error error) (hposition : error.position? = some position) :
    StopsAt Written.Clause text.toList position :=
  stopsAt_of_readOne sound_clause movable_clause herror hposition

theorem stopsAt_of_readQuery {text : String} {error : SyntaxError} {position : Position}
    (herror : readQuery text = .error error) (hposition : error.position? = some position) :
    StopsAt Query text.toList position := by
  rw [readQuery, query_eq] at herror
  exact stopsAt_of_readOne sound_goals movable_query herror hposition

/-- What stands before an error is clauses and maybe the start of one more, which can be
ended. -/
theorem stopsAt_of_readProgram {text : String} {error : SyntaxError} {position : Position}
    (herror : readProgram text = .error error) (hposition : error.position? = some position) :
    StopsAt (Many Written.Clause) text.toList position := by
  obtain ⟨found, hfound, hstops⟩ :=
    stopsAt_of_readAll_entire sound_clauses movable_clauses herror
  obtain rfl : position = found := Option.some.inj (hposition.symm.trans hfound)
  exact hstops

end Grammar

theorem Except.map_eq_error_iff {ε β : Type} {f : α → β} {result : Except ε α} {error : ε} :
    result.map f = .error error ↔ result = .error error := by
  cases result <;> simp [Except.map]

namespace SyntaxError

/-- Where an error has a position, just one place in the text is there, and what
stands before that place is the start of a text that is accepted. -/
def Completable {β : Type} (parse : String → Except SyntaxError β) (text : String) : Prop :=
  ∀ error position, parse text = .error error → error.position? = some position →
    ∃ passed rest, text.toList = passed ++ rest ∧ position.Marks passed ∧
      (∀ other left, text.toList = other ++ left → position.Marks other →
        other = passed ∧ left = rest) ∧
      ∃ more value, parse (.ofList (passed ++ more)) = .ok value

theorem completable_of_stopsAt {β : Type} {form : Form α} {parse : String → Except SyntaxError β}
    {build : α → β} {text : String}
    (hstops : ∀ {error position}, parse text = .error error → error.position? = some position →
      StopsAt form text.toList position)
    (haccept : ∀ {value : α} {text : String}, Whole form value text.toList →
      parse text = .ok (build value)) :
    Completable parse text := by
  intro error position herror hposition
  obtain ⟨passed, rest, htext, hafter, more, value, hwhole⟩ := hstops herror hposition
  refine ⟨passed, rest, htext, Position.marks_iff.mpr hafter.symm, ?_, more, build value, ?_⟩
  · intro other left hother hmarks
    have hsame : Position.after other = Position.after passed :=
      (Position.marks_iff.mp hmarks).trans hafter
    exact Position.append_inj_of_after (hother.symm.trans htext) hsame
  · exact haccept (by rwa [String.toList_ofList])

end SyntaxError

namespace Clause

/-- Wherever an error is reported, the text could have gone on from there. -/
theorem parse_errors_completable (text : String) :
    SyntaxError.Completable Clause.parseQuery text ∧ SyntaxError.Completable Clause.parse text ∧
      SyntaxError.Completable Clause.parseProgram text := by
  refine ⟨?_, ?_, ?_⟩
  · refine SyntaxError.completable_of_stopsAt ?_ parseQuery_of_whole
    intro error position herror
    exact stopsAt_of_readQuery (Except.map_eq_error_iff.mp herror)
  · refine SyntaxError.completable_of_stopsAt ?_ parse_of_whole
    intro error position herror
    exact stopsAt_of_readClause (Except.map_eq_error_iff.mp herror)
  · refine SyntaxError.completable_of_stopsAt ?_ parseProgram_of_whole
    intro error position herror
    exact stopsAt_of_readProgram (Except.map_eq_error_iff.mp herror)

/-- The comment at the end of the text stands before the error. -/
theorem unclosed_arguments_completable :
    Clause.parse "p(a%" = .error (.expected .clause ⟨1, 5⟩) ∧
      ∃ passed rest, "p(a%".toList = passed ++ rest ∧ Position.Marks ⟨1, 5⟩ passed ∧
        (∀ other left, "p(a%".toList = other ++ left → Position.Marks ⟨1, 5⟩ other →
          other = passed ∧ left = rest) ∧
        ∃ more value, Clause.parse (.ofList (passed ++ more)) = .ok value :=
  ⟨rfl, (parse_errors_completable "p(a%").2.1 _ _ rfl rfl⟩

end Clause

end Posl
