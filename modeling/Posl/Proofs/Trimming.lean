import Mathlib.Data.List.DropRight
import Posl.Proofs.Grammar.Acceptance
import Posl.Proofs.Serving

/-!
# White space at the ends of a query

A line is served without the white space at its ends, which is more than what the
grammar takes for blank space.  A query starts and ends with characters that are not
white, so that nothing of it is lost, and what is left of a comment behind it is still
a comment, as long as the line is one line.
-/

namespace Posl

/-! ## Characters that are not white -/

/-- No character of ASCII that shows something is white. -/
theorem isBlank_of_printable {c : Char} (hlow : 32 < c.toNat) (hhigh : c.toNat < 127) :
    isBlank c = false := by
  simp only [isBlank, blankRanges, List.any_cons, List.any_nil, Bool.or_false, Bool.or_eq_false_iff,
    Bool.and_eq_false_iff, decide_eq_false_iff_not]
  omega

theorem isBlank_of_isIdentifierRest {c : Char} (hc : Lexeme.isIdentifierRest c) :
    isBlank c = false := by
  unfold Lexeme.isIdentifierRest Char.isAlphanum Char.isAlpha Char.isUpper Char.isLower
    Char.isDigit at hc
  simp only [Bool.or_eq_true, Bool.and_eq_true, decide_eq_true_eq, beq_iff_eq, ge_iff_le,
    UInt32.le_iff_toNat_le] at hc
  change ((((65 ≤ c.toNat ∧ c.toNat ≤ 90) ∨ (97 ≤ c.toNat ∧ c.toNat ≤ 122)) ∨
    (48 ≤ c.toNat ∧ c.toNat ≤ 57)) ∨ c = '_') ∨ c = '-' at hc
  rcases hc with (hword | rfl) | rfl
  · exact isBlank_of_printable (by omega) (by omega)
  · decide
  · decide

namespace Written

variable {α : Type}

/-! ## Where a writing ends -/

/-- What is taken off a text ends in a character that is not white. -/
def EndsDark (text rest : List Char) : Prop :=
  ∃ c, isBlank c = false ∧ c :: rest <:+ text

theorem EndsDark.suffix {text rest : List Char} (hdark : EndsDark text rest) : rest <:+ text := by
  obtain ⟨c, -, hsuffix⟩ := hdark
  exact (List.suffix_cons c rest).trans hsuffix

/-- What stands before a piece does not matter to how the piece ends. -/
theorem EndsDark.of_suffix {text next rest : List Char} (hdark : EndsDark next rest)
    (hsuffix : next <:+ text) : EndsDark text rest := by
  obtain ⟨c, hc, hnext⟩ := hdark
  exact ⟨c, hc, hnext.trans hsuffix⟩

theorem Blank.suffix {text rest : List Char} (hblank : Blank text rest) : rest <:+ text := by
  induction hblank with
  | done => exact List.suffix_rfl
  | space _ _ ih => exact ih.trans (List.suffix_cons _ _)
  | comment _ _ _ ih =>
      exact ih.trans ((List.suffix_append _ _).trans (List.suffix_cons _ _))

theorem MovableAt.suffix {form : Form α} {value : α} {text rest : List Char}
    (hmove : MovableAt form value) (hform : form value text rest) : rest <:+ text := by
  obtain ⟨front, rfl, -⟩ := hmove.exists_front hform
  exact List.suffix_append front rest

theorem endsDark_token {c : Char} {text rest : List Char} (htoken : Token c text rest)
    (hc : isBlank c = false) : EndsDark text rest :=
  ⟨c, hc, htoken.suffix⟩

theorem endsDark_word (word : List Char) {rest : List Char} (hne : word ≠ [])
    (hdark : ∀ c ∈ word, isBlank c = false) : EndsDark (word ++ rest) rest := by
  refine ⟨word.getLast hne, hdark _ (List.getLast_mem hne), word.dropLast, ?_⟩
  rw [← List.singleton_append, ← List.append_assoc, List.dropLast_concat_getLast]

theorem Identifier.endsDark {word : String} {text rest : List Char}
    (hword : Identifier word text rest) : EndsDark text rest := by
  obtain ⟨c, tail, -, rfl, hc, htail⟩ := hword.exists_cons
  refine endsDark_word (c :: tail) (by simp) fun d hd => isBlank_of_isIdentifierRest ?_
  rcases List.mem_cons.mp hd with rfl | hmem
  · exact Grammar.isIdentifierRest_of_isIdentifierStart hc
  · exact List.all_eq_true.mp htail d hmem

/-- The end of a list is the end of its last item, or that of what stands before it. -/
theorem EndsDark.many {form : Form α} {values : List α} {text next rest : List Char}
    (hdark : EndsDark text next) (hmany : Many form values next rest)
    (hform : ∀ {value text rest}, form value text rest → EndsDark text rest) :
    EndsDark text rest := by
  induction hmany with
  | nil => exact hdark
  | cons hfirst _ ih => exact ih ((hform hfirst).of_suffix hdark.suffix)

theorem Then.endsDark {lead : List Char → List Char → Prop} {form : Form α} {value : α}
    {text rest : List Char} (hthen : Then lead form value text rest)
    (hlead : ∀ {text next}, lead text next → next <:+ text)
    (hform : ∀ {value text rest}, form value text rest → EndsDark text rest) :
    EndsDark text rest := by
  obtain ⟨hbefore, hvalue⟩ := hthen
  exact (hform hvalue).of_suffix (hlead hbefore)

theorem Series.endsDark {item : Form α} {items : List α} {text rest : List Char}
    (hseries : Series item items text rest)
    (hitem : ∀ {value text rest}, item value text rest → EndsDark text rest) :
    EndsDark text rest := by
  obtain ⟨hfirst, hothers⟩ := hseries
  refine (hfirst.endsDark Blank.suffix hitem).many hothers fun hother => ?_
  refine hother.endsDark (fun hcomma => ?_) fun hvalue => hvalue.endsDark Blank.suffix hitem
  exact (List.suffix_cons _ _).trans hcomma.suffix

theorem Atom.endsDark {atom : SourceAtom} {text rest : List Char} (hatom : Atom atom text rest) :
    EndsDark text rest := by
  cases hatom with
  | name hname => exact hname.endsDark
  | call hname hopen hoid hargs hclose =>
      have hinner := (movable_terms _).suffix hargs
      have hoperands := (movable_objectIdentifier.optional _).suffix hoid
      have hlist := (List.suffix_cons _ _).trans hopen.suffix
      have hdark := endsDark_token hclose (by decide)
      exact hdark.of_suffix
        (hinner.trans (hoperands.trans (hlist.trans hname.endsDark.suffix)))

theorem Period.endsDark {text next rest : List Char} (hdark : EndsDark text next)
    (hperiod : Period next rest) : EndsDark text rest := by
  cases hperiod with
  | absent => exact hdark
  | present htoken => exact (endsDark_token htoken (by decide)).of_suffix hdark.suffix

/-- A query ends in its period, or else in its last atom. -/
theorem Query.endsDark {goals : List SourceAtom} {text rest : List Char}
    (hquery : Query goals text rest) : EndsDark text rest := by
  cases hquery with
  | goals hgoals hperiod => exact hperiod.endsDark (hgoals.endsDark Atom.endsDark)
  | rule hhead harrow hbody hperiod =>
      have hbefore := (movable_blankAtom _).suffix hhead
      have hneck : _ <:+ _ := ((List.suffix_append [':', '-'] _).trans harrow.suffix).trans hbefore
      exact hperiod.endsDark ((hbody.endsDark Atom.endsDark).of_suffix hneck)

/-! ## White space in front of a query -/

theorem Atom.exists_cons {atom : SourceAtom} {text rest : List Char}
    (hatom : Atom atom text rest) :
    ∃ c tail, text = c :: tail ∧ Lexeme.isIdentifierStart c := by
  cases hatom with
  | name hname =>
      obtain ⟨c, tail, -, rfl, hc, -⟩ := hname.exists_cons
      exact ⟨c, _, rfl, hc⟩
  | call hname _ _ _ _ =>
      obtain ⟨c, tail, -, rfl, hc, -⟩ := hname.exists_cons
      exact ⟨c, _, rfl, hc⟩

/-- Whatever blank space stands in front of a query could be exchanged for other blank
space. -/
theorem Query.exists_lead {goals : List SourceAtom} {text rest : List Char}
    (hquery : Query goals text rest) :
    ∃ c tail, Blank text (c :: tail) ∧ Lexeme.isIdentifierStart c ∧
      ∀ other, Blank other (c :: tail) → Query goals other rest := by
  cases hquery with
  | goals hgoals hperiod =>
      obtain ⟨⟨hblank, hatom⟩, hothers⟩ := hgoals
      obtain ⟨c, tail, rfl, hc⟩ := hatom.exists_cons
      exact ⟨c, tail, hblank, hc, fun other hother =>
        .goals (.intro (.intro hother hatom) hothers) hperiod⟩
  | rule hhead harrow hbody hperiod =>
      obtain ⟨hblank, hatom⟩ := hhead
      obtain ⟨c, tail, rfl, hc⟩ := hatom.exists_cons
      exact ⟨c, tail, hblank, hc, fun other hother =>
        .rule (.intro hother hatom) harrow hbody hperiod⟩

/-- White space that is dropped in front of a token leaves what follows it, since it
stops before a comment. -/
theorem Blank.dropWhile {c : Char} {text rest : List Char} (hblank : Blank text (c :: rest))
    (hc : isBlank c = false) : Blank (text.dropWhile isBlank) (c :: rest) := by
  generalize hnext : c :: rest = next at hblank
  induction hblank with
  | done =>
      subst hnext
      rw [List.dropWhile_cons_of_neg (by simp [hc])]
      exact .done
  | @space d text _ hd _ ih =>
      have hspace : isBlank d := by
        simp only [List.mem_cons, List.not_mem_nil, or_false] at hd
        rcases hd with rfl | rfl | rfl | rfl <;> decide
      rw [List.dropWhile_cons_of_pos hspace]
      exact ih hnext
  | comment hbody hend hrest _ =>
      rw [List.dropWhile_cons_of_neg (by decide)]
      exact .comment hbody hend hrest

/-- White space in front of a query is blank space to the grammar where a query follows, so
dropping it changes nothing. -/
theorem Query.dropWhile {goals : List SourceAtom} {text rest : List Char}
    (hquery : Query goals text rest) : Query goals (text.dropWhile isBlank) rest := by
  obtain ⟨c, tail, hblank, hc, hmoved⟩ := hquery.exists_lead
  exact hmoved _ (hblank.dropWhile
    (isBlank_of_isIdentifierRest (Grammar.isIdentifierRest_of_isIdentifierStart hc)))

/-! ## White space behind a query -/

/-- On one line a comment runs to the end of the text. -/
theorem LineEnd.eq_nil {text : List Char} (hend : LineEnd text) (hline : '\n' ∉ text) :
    text = [] := by
  cases hend with
  | nil => rfl
  | lineFeed => simp at hline
  | carriageReturn => simp at hline

/-- The front of what may stand behind a query on its line may stand there as well: a
comment goes on to the end of the line, wherever that is. -/
theorem Blank.of_prefix {text front : List Char} (hblank : Blank text []) (hline : '\n' ∉ text)
    (hstarts : front <+: text) : Blank front [] := by
  generalize hnext : [] = next at hblank
  induction hblank generalizing front <;> subst hnext
  case done =>
    obtain rfl := List.prefix_nil.mp hstarts
    exact .done
  case space hc _ ih =>
    rcases List.prefix_cons_iff.mp hstarts with rfl | ⟨front, rfl, hfront⟩
    · exact .done
    · exact .space hc (ih (List.not_mem_of_not_mem_cons hline) hfront rfl)
  case comment body text hbody hend _ _ =>
    obtain rfl := hend.eq_nil fun hmem => hline (by simp [hmem])
    rcases List.prefix_cons_iff.mp hstarts with rfl | ⟨front, rfl, hfront⟩
    · exact .done
    · rw [List.append_nil] at hfront
      have hcomment : Blank ('%' :: (front ++ [])) [] :=
        .comment (fun c hc => hbody c (hfront.subset hc)) .nil .done
      simpa using hcomment

/-- White space that is dropped at the end of a text stops behind what ends in another
character. -/
theorem rdropWhile_append_of_dark {c : Char} (hc : isBlank c = false)
    (front rest : List Char) :
    (front ++ c :: rest).rdropWhile isBlank = front ++ c :: rest.rdropWhile isBlank := by
  induction rest using List.reverseRecOn with
  | nil => rw [List.rdropWhile_concat_neg _ _ _ (by simp [hc]), List.rdropWhile_nil]
  | append_singleton rest d ih =>
      rw [← List.cons_append, ← List.append_assoc, List.rdropWhile_concat, List.rdropWhile_concat]
      split
      · exact ih
      · simp

/-- What is taken off behind a query is blank space or the end of a comment, which ends all
the same. -/
theorem Whole.rdropWhile {goals : List SourceAtom} {text : List Char}
    (hwhole : Whole Query goals text) (hline : '\n' ∉ text) :
    Whole Query goals (text.rdropWhile isBlank) := by
  cases hwhole with
  | @intro rest hquery hend =>
      obtain ⟨c, hc, front, rfl⟩ := hquery.endsDark
      obtain ⟨written, hwritten, hmoved⟩ := (movable_query _).exists_front hquery
      obtain rfl : front ++ [c] = written :=
        List.append_cancel_right (by rw [← hwritten, List.append_assoc, List.singleton_append])
      have hquery := hmoved (rest.rdropWhile isBlank)
      rw [List.append_assoc, List.singleton_append, ← rdropWhile_append_of_dark hc] at hquery
      have hcomment : '\n' ∉ rest := fun hmem => hline (by simp [hmem])
      exact .intro hquery (hend.of_prefix hcomment (List.rdropWhile_prefix isBlank rest))

theorem trim_eq (text : List Char) :
    trim text = (text.dropWhile isBlank).rdropWhile isBlank := rfl

theorem Whole.trim {goals : List SourceAtom} {text : List Char}
    (hwhole : Whole Query goals text) (hline : '\n' ∉ text) : Whole Query goals (trim text) := by
  obtain ⟨hquery, hend⟩ := hwhole
  have hdropped := Whole.intro hquery.dropWhile hend
  exact hdropped.rdropWhile fun hmem => hline ((List.dropWhile_suffix _).subset hmem)

/-- What starts with a percent sign on one line is a comment or no query at all. -/
theorem not_whole_of_percent {goals : List SourceAtom} {text : List Char} (hline : '\n' ∉ text) :
    ¬ Whole Query goals ('%' :: text) := by
  rintro ⟨hquery, -⟩
  obtain ⟨c, tail, hblank, hc, -⟩ := hquery.exists_lead
  cases hblank with
  | done => exact absurd hc (by decide)
  | space hpercent _ => exact absurd hpercent (by decide)
  | comment _ hend hrest =>
      obtain rfl := hend.eq_nil fun hmem => hline (by simp [hmem])
      cases hrest

end Written

open Written

/-! ## Lines that are served -/

theorem trim_subset (text : List Char) : trim text ⊆ text := by
  rw [trim_eq]
  exact List.Subset.trans (List.rdropWhile_prefix _ _).subset (List.dropWhile_suffix _).subset

theorem head_trim {c : Char} {text rest : List Char} (htrim : trim text = c :: rest) :
    isBlank c = false := by
  have hstarts : c :: rest <+: text.dropWhile isBlank := by
    rw [← htrim, trim_eq]
    exact List.rdropWhile_prefix _ _
  obtain ⟨tail, htail⟩ := hstarts
  have hhead := List.head?_dropWhile_not isBlank text
  rw [← htail] at hhead
  exact hhead

theorem Clause.parseQuery_ne_empty {text : String} (hskip : Grammar.skipBlank text.toList ≠ []) :
    Clause.parseQuery text ≠ .error .empty := by
  rw [Clause.parseQuery, Grammar.readQuery, Grammar.readOne, if_neg hskip, Reader.readAll]
  cases Grammar.query text.toList with
  | ok value rest => cases rest <;> simp [Except.map]
  | mismatch rest => simp [Except.map]
  | failure rest => simp [Except.map]

/-- A line that asks something starts with a character that is neither white nor a percent
sign, so it is not skipped. -/
theorem skipBlank_trimmed_ne_nil {line : String} (hasks : asksQuery line) :
    Grammar.skipBlank (trimmed line).toList ≠ [] := by
  rw [trimmed, String.toList_ofList]
  cases htrim : trim line.toList with
  | nil => simp [asksQuery, htrim] at hasks
  | cons c rest =>
      have hpercent : c ≠ '%' := by simpa [asksQuery, htrim] using hasks
      have hsolid : Solid c := by
        intro hmem
        simp only [List.mem_cons, List.not_mem_nil, or_false] at hmem
        have hdark := head_trim htrim
        rcases hmem with rfl | rfl | rfl | rfl | hc
        all_goals first | exact hpercent hc | exact absurd hdark (by decide)
      simp [skipBlank_of_solid hsolid]

/-- Lines that are skipped hold no query, so nothing is lost with them. -/
theorem not_whole_of_skipped {line : String} {goals : List SourceAtom}
    (hskipped : asksQuery line = false) (hline : '\n' ∉ line.toList) :
    ¬ Whole Query goals (trim line.toList) := by
  cases htrim : trim line.toList with
  | nil => exact fun hwhole => Grammar.skipBlank_ne_nil_of_query hwhole rfl
  | cons c rest =>
      obtain rfl : c = '%' := by simpa [asksQuery, htrim] using hskipped
      have hrest : '\n' ∉ rest := fun hmem =>
        hline (trim_subset line.toList (by simp [htrim, hmem]))
      exact not_whole_of_percent hrest

/-- A line that is not served has no query on it, a line that is served is never taken
for an empty one, and a query that is accepted is accepted, with the same meaning, when
the white space at its ends is taken away. -/
theorem query_survives_trimming {line : String} (hline : '\n' ∉ line.toList) :
    (queryOfLine? line = none → ∃ error, Clause.parseQuery (trimmed line) = .error error) ∧
    (∀ query, queryOfLine? line = some query →
      query = trimmed line ∧ Clause.parseQuery query ≠ .error .empty) ∧
    (∀ clause, Clause.parseQuery line = .ok clause →
      Clause.parseQuery (trimmed line) = .ok clause) := by
  refine ⟨fun hnone => ?_, fun query hsome => ?_, fun clause hread => ?_⟩
  · have hskipped : asksQuery line = false := by simpa [queryOfLine?_eq] using hnone
    cases hread : Clause.parseQuery (trimmed line) with
    | error error => exact ⟨error, rfl⟩
    | ok clause =>
        obtain ⟨goals, hgoals, -⟩ := Except.map_eq_ok_iff.mp hread
        have hwhole := Grammar.readQuery_eq_ok_iff.mp hgoals
        rw [trimmed, String.toList_ofList] at hwhole
        exact absurd hwhole (not_whole_of_skipped hskipped hline)
  · obtain ⟨hasks, rfl⟩ : asksQuery line ∧ trimmed line = query := by
      simpa [queryOfLine?_eq] using hsome
    exact ⟨rfl, Clause.parseQuery_ne_empty (skipBlank_trimmed_ne_nil hasks)⟩
  · obtain ⟨goals, hgoals, rfl⟩ := Except.map_eq_ok_iff.mp hread
    have hwhole := (Grammar.readQuery_eq_ok_iff.mp hgoals).trim hline
    exact Clause.parseQuery_of_whole (by rwa [trimmed, String.toList_ofList])

/-- A tab in front, a percent sign inside a string, and a no-break space and a vertical
tab behind a comment. -/
theorem query_survives_trimming_spaced :
    let line := "\tlub(?X, \"a %\", b). % note\u00a0\u000b"
    let query := "lub(?X, \"a %\", b). % note"
    let clause : Clause :=
      { atoms := [.call "lub" [.var 0 none, .const "a %" none, .const "b" none]]
        variableNames := ["X"] }
    '\n' ∉ line.toList ∧ trimmed line = query ∧ queryOfLine? line = some query ∧
      Clause.parseQuery line = .ok clause ∧ Clause.parseQuery query = .ok clause := by
  intro line query clause
  have hline : '\n' ∉ line.toList := by decide +kernel
  have htrimmed : trimmed line = query := by decide +kernel
  have hread : Clause.parseQuery line = .ok clause := by decide +kernel
  have hkept := (query_survives_trimming hline).2.2 clause hread
  rw [htrimmed] at hkept
  exact ⟨hline, htrimmed, by decide +kernel, hread, hkept⟩

end Posl
