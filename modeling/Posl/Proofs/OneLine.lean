import Posl.Proofs.Arithmetic
import Posl.Proofs.QueryDecisions
import Posl.Proofs.Trimming
import Posl.TypeQuery.Summary

/-!
# Queries on one line

What is said of a query that stands on one line stands on one line as well.  The words
of its terms stand in its text, where a quoted one could hold any character, and neither
a term's text nor a summary or a message puts a line feed between them.
-/

namespace Posl

open Written

/-! ## Where the parts of a query stand -/

namespace Written

variable {α : Type}

/-- Each value of a list is written somewhere in the text. -/
theorem Many.exists_suffix {form : Form α} (hmove : Movable form) {values : List α}
    {text rest : List Char} (hmany : Many form values text rest) :
    ∀ value ∈ values, ∃ inner stop, inner <:+ text ∧ form value inner stop := by
  induction hmany with
  | nil => simp
  | cons hfirst _ ih =>
      refine List.forall_mem_cons.mpr ⟨⟨_, _, List.suffix_rfl, hfirst⟩, fun value hmem => ?_⟩
      obtain ⟨inner, stop, hinner, hvalue⟩ := ih value hmem
      exact ⟨inner, stop, hinner.trans ((hmove _).suffix hfirst), hvalue⟩

theorem Series.exists_suffix {item : Form α} (hstart : StartsSolid item) (hmove : Movable item)
    {items : List α} {text rest : List Char} (hseries : Series item items text rest) :
    ∀ value ∈ items, ∃ inner stop, inner <:+ text ∧ item value inner stop := by
  obtain ⟨hfirst, hothers⟩ := hseries
  have hnext := ((hmove _).blankThen hstart).suffix hfirst
  have hmoves : Movable (Then (Token ',') (Then Blank item)) := fun value =>
    ((hmove value).blankThen hstart).tokenThen (by decide)
  obtain ⟨hblank, hvalue⟩ := hfirst
  refine List.forall_mem_cons.mpr ⟨⟨_, _, hblank.suffix, hvalue⟩, fun value hmem => ?_⟩
  obtain ⟨inner, stop, hinner, htoken, hspace, hother⟩ := hothers.exists_suffix hmoves value hmem
  have hcomma := (List.suffix_cons _ _).trans htoken.suffix
  exact ⟨_, stop, hspace.suffix.trans (hcomma.trans (hinner.trans hnext)), hother⟩

theorem exists_suffix_of_items {terms : List SourceTerm} {text rest : List Char}
    (hterms : Items Term terms text rest) :
    ∀ term ∈ terms, ∃ inner stop, inner <:+ text ∧ Term term inner stop := by
  cases hterms with
  | none => simp
  | some hseries => exact hseries.exists_suffix startsSolid_term movable_term

/-- The terms of an atom stand in its text, the object identifier among them. -/
theorem Atom.exists_suffix {atom : SourceAtom} {text rest : List Char}
    (hatom : Atom atom text rest) :
    ∀ term ∈ atom.terms, ∃ inner stop, inner <:+ text ∧ Term term inner stop := by
  cases hatom with
  | name _ => simp [SourceAtom.terms]
  | call hname hopen hoid hargs _ =>
      have hslot := (List.suffix_cons _ _).trans
        (hopen.suffix.trans ((movable_word _).suffix hname))
      intro term hmem
      rcases List.mem_append.mp hmem with hmem | hmem
      · cases hoid with
        | none => simp at hmem
        | some hwritten =>
            obtain rfl : term = _ := by simpa using hmem
            obtain ⟨⟨hblank, hterm⟩, -⟩ := hwritten
            exact ⟨_, _, hblank.suffix.trans hslot, hterm⟩
      · obtain ⟨inner, stop, hinner, hterm⟩ := exists_suffix_of_items hargs term hmem
        have hlist := (movable_objectIdentifier.optional _).suffix hoid
        exact ⟨inner, stop, hinner.trans (hlist.trans hslot), hterm⟩

theorem Query.exists_suffix {atoms : List SourceAtom} {text rest : List Char}
    (hquery : Query atoms text rest) :
    ∀ atom ∈ atoms, ∃ inner stop, inner <:+ text ∧ Atom atom inner stop := by
  cases hquery with
  | goals hgoals _ => exact hgoals.exists_suffix startsSolid_atom movable_atom
  | rule hhead harrow hbody _ =>
      have hneck := harrow.suffix.trans ((movable_blankAtom _).suffix hhead)
      obtain ⟨hblank, hatom⟩ := hhead
      refine List.forall_mem_cons.mpr ⟨⟨_, _, hblank.suffix, hatom⟩, fun atom hmem => ?_⟩
      obtain ⟨inner, stop, hinner, hother⟩ :=
        hbody.exists_suffix startsSolid_atom movable_atom atom hmem
      exact ⟨inner, stop, hinner.trans ((List.suffix_append [':', '-'] _).trans hneck), hother⟩

/-- What is quoted stands in the text, character by character. -/
theorem QuotedBody.subset {body text rest : List Char} (hbody : QuotedBody body text rest) :
    body ⊆ text := by
  induction hbody with
  | close => exact List.nil_subset _
  | escaped _ ih => exact List.subset_cons_of_subset _ (List.cons_subset_cons _ ih)
  | plain _ _ _ ih => exact List.cons_subset_cons _ ih

end Written

/-! ## Terms on one line -/

/-- A term without a line feed in its constants, the only words that could hold one. -/
inductive Term.IsOnOneLine : Term → Prop
  | var {index type} : IsOnOneLine (.var index type)
  | anon : IsOnOneLine .anon
  | const {name type} : '\n' ∉ name.toList → IsOnOneLine (.const name type)
  | expr {functor args} : (∀ arg ∈ args, IsOnOneLine arg) → IsOnOneLine (.expr functor args)
  | atom {predicate args} : (∀ arg ∈ args, IsOnOneLine arg) → IsOnOneLine (.atom predicate args)

namespace Written

variable {names : List String}

/-- The induction is on the term, as for `movable_term`. -/
theorem Term.isOnOneLine : {term : SourceTerm} → {text rest : List Char} →
    Term term text rest → '\n' ∉ text → (term.resolve names).IsOnOneLine
  | .anon, _, _, _, _ => .anon
  | .var .., _, _, _, _ => .var
  | .const .., _, _, .number hname _, hline | .const .., _, _, .individual hname _ _, hline =>
      .const fun hmem => hline (by rw [hname.2]; exact List.mem_append_left _ hmem)
  | .const .., _, _, .string hname _, hline => by
      obtain ⟨body, rfl, hbody⟩ := hname
      exact .const fun hmem => hline (List.mem_cons_of_mem _ (hbody.subset hmem))
  | .expr _ args, _, _, .expression hname _ hopen hargs _, hline => by
      rw [SourceTerm.resolve, SourceTerm.resolveEach_eq_map]
      refine .expr (List.forall_mem_map.mpr fun arg hmem => ?_)
      obtain ⟨inner, stop, hinner, harg⟩ := exists_suffix_of_items hargs arg hmem
      have hlist := (List.suffix_cons _ _).trans
        (hopen.suffix.trans ((movable_word _).suffix hname))
      exact harg.isOnOneLine fun hfeed => hline ((hinner.trans hlist).subset hfeed)

/-- The slot of an object identifier that is not written holds no word. -/
theorem Atom.isOnOneLine {atom : SourceAtom} {text rest : List Char}
    (hatom : Atom atom text rest) (hline : '\n' ∉ text) : (atom.resolve names).IsOnOneLine := by
  have hterms : ∀ term ∈ atom.terms, (term.resolve names).IsOnOneLine := by
    intro term hmem
    obtain ⟨inner, stop, hinner, hterm⟩ := hatom.exists_suffix term hmem
    exact hterm.isOnOneLine fun hfeed => hline (hinner.subset hfeed)
  rw [SourceAtom.terms, List.forall_mem_append] at hterms
  refine .atom (List.forall_mem_cons.mpr ⟨?_, List.forall_mem_map.mpr hterms.2⟩)
  cases hoid : atom.oid with
  | none => exact .anon
  | some oid => exact hterms.1 oid (by simp [hoid])

end Written

/-- No term of a query that stands on one line holds a line feed. -/
theorem Clause.isOnOneLine_of_parseQuery {text : String} {clause : Clause}
    (hparse : Clause.parseQuery text = .ok clause) (hline : '\n' ∉ text.toList) :
    ∀ atom ∈ clause.atoms, atom.IsOnOneLine := by
  obtain ⟨atoms, hread, rfl⟩ := Except.map_eq_ok_iff.mp hparse
  obtain ⟨hquery, -⟩ := Grammar.readQuery_eq_ok_iff.mp hread
  refine List.forall_mem_map.mpr fun atom hmem => ?_
  obtain ⟨inner, stop, hinner, hatom⟩ := hquery.exists_suffix atom hmem
  exact hatom.isOnOneLine fun hfeed => hline (hinner.subset hfeed)

/-! ## Texts on one line -/

def IsOneLine (text : String) : Prop := '\n' ∉ text.toList

instance (text : String) : Decidable (IsOneLine text) :=
  inferInstanceAs (Decidable ('\n' ∉ text.toList))

theorem IsOneLine.append {left right : String} (hleft : IsOneLine left)
    (hright : IsOneLine right) : IsOneLine (left ++ right) := by
  rw [IsOneLine, String.toList_append, List.mem_append, not_or]
  exact ⟨hleft, hright⟩

theorem isOneLine_toString (n : Nat) : IsOneLine (toString n) := by
  rw [IsOneLine, Nat.toString_eq_repr, Nat.toList_repr]
  exact fun hmem => absurd (isDigit_of_mem_toDigits hmem) (by decide)

/-! ## Texts of terms -/

/-- Words are made of letters, digits, underscores and hyphens. -/
theorem lineFeed_not_mem_of_isIdentifier {word : List Char} (hword : Lexeme.isIdentifier word) :
    '\n' ∉ word := by
  intro hmem
  cases word with
  | nil => cases hmem
  | cons c rest =>
      rw [Lexeme.isIdentifier, Bool.and_eq_true, List.all_eq_true] at hword
      rcases List.mem_cons.mp hmem with rfl | hrest
      · exact absurd hword.1 (by decide)
      · exact absurd (hword.2 _ hrest) (by decide)

namespace Lexeme

theorem lineFeed_not_mem_escape {text : List Char} (htext : '\n' ∉ text) : '\n' ∉ escape text := by
  induction text with
  | nil => exact htext
  | cons c rest ih =>
      rw [List.mem_cons, not_or] at htext
      rw [escape]
      split
      · simpa using ⟨htext.1, ih htext.2⟩
      · simpa using ⟨htext.1, ih htext.2⟩

/-- A constant is shown bare or escaped, and neither way puts a line feed in. -/
theorem lineFeed_not_mem_constant {text : List Char} (htext : '\n' ∉ text) :
    '\n' ∉ constant text := by
  rw [constant]
  split
  · exact htext
  · simpa [quote] using lineFeed_not_mem_escape htext

end Lexeme

namespace Term

variable {names : List String} {marked : Bool}

theorem lineFeed_not_mem_typeSuffix {type : Option String} (htype : IsType type) :
    '\n' ∉ typeSuffix type := by
  cases type with
  | none => simp [typeSuffix]
  | some name => simpa [typeSuffix] using lineFeed_not_mem_of_isIdentifier (htype name rfl)

theorem lineFeed_not_mem_variableName
    (hnames : ∀ name ∈ names, Lexeme.isIdentifier name.toList) (index : Nat) :
    '\n' ∉ variableName names index := by
  rw [variableName]
  cases hname : names[index]? with
  | none => exact List.not_mem_cons_of_ne_of_not_mem (by decide) (isOneLine_toString index)
  | some name => exact lineFeed_not_mem_of_isIdentifier (hnames name (List.mem_of_getElem? hname))

theorem lineFeed_not_mem_commaSeparated {items : List (List Char)}
    (hitems : ∀ item ∈ items, '\n' ∉ item) : '\n' ∉ commaSeparated items := by
  simp only [← List.forall_mem_ne'] at hitems ⊢
  exact forall_mem_intercalate (by simp) hitems

/-- Names and functors are identifiers, and constants are on one line by assumption. -/
theorem IsArgument.lineFeed_not_mem_chars {term : Term} (hterm : term.IsArgument)
    (hnames : ∀ name ∈ names, Lexeme.isIdentifier name.toList) (hline : term.IsOnOneLine) :
    '\n' ∉ term.chars names marked := by
  induction hterm with
  | var htype =>
      have hmark : '\n' ∉ (if marked then ['?'] else []) := by cases marked <;> decide
      simp only [chars, List.mem_append, not_or]
      exact ⟨⟨hmark, lineFeed_not_mem_variableName hnames _⟩, lineFeed_not_mem_typeSuffix htype⟩
  | anon => cases marked <;> simp [chars]
  | const htype =>
      cases hline with
      | const hname =>
          simp only [chars, List.mem_append, not_or]
          exact ⟨Lexeme.lineFeed_not_mem_constant hname, lineFeed_not_mem_typeSuffix htype⟩
  | expr hfunctor _ _ ih =>
      cases hline with
      | expr hargs =>
          have hitems := lineFeed_not_mem_commaSeparated
            (List.forall_mem_map.mpr fun arg hmem => ih arg hmem (hargs arg hmem))
          simpa [chars] using ⟨lineFeed_not_mem_of_isIdentifier hfunctor, hitems⟩

end Term

/-! ## What is said of a query -/

theorem isOneLine_name (predicate : TypePredicate) : IsOneLine predicate.name := by
  cases predicate <;> decide

/-- The texts that requests and errors take over from a query. -/
theorem Asks.texts_on_one_line {text symbol : String} {operands : List Term}
    {names : List String} (hasks : Asks text symbol operands names) (hline : IsOneLine text) :
    IsOneLine symbol ∧ (∀ name ∈ names, IsOneLine name) ∧
      ∀ operand ∈ operands, IsOneLine (operand.bare names) := by
  obtain ⟨oid, hparse⟩ := hasks
  have hclause := Clause.wellFormed_of_parseQuery hparse
  have hwritten := Clause.isOnOneLine_of_parseQuery hparse hline _ List.mem_cons_self
  cases hclause.isAtom _ List.mem_cons_self with
  | intro hsymbol _ hoperands =>
      cases hwritten with
      | atom hargs =>
          refine ⟨lineFeed_not_mem_of_isIdentifier hsymbol, fun name hmem =>
            lineFeed_not_mem_of_isIdentifier (hclause.isIdentifier name hmem), ?_⟩
          intro operand hmem
          rw [IsOneLine, Term.bare, String.toList_ofList]
          exact (hoperands operand hmem).lineFeed_not_mem_chars hclause.isIdentifier
            (hargs operand (List.mem_cons_of_mem _ hmem))

section

variable {names : List String} {operands : List Term} (hnames : ∀ name ∈ names, IsOneLine name)
  (hoperands : ∀ operand ∈ operands, IsOneLine (operand.bare names))

include hnames hoperands

theorem Term.Denotes.isOneLine_text {term : Term} {reference : ClassRef}
    (hdenotes : term.Denotes names reference) (hmem : term ∈ operands) :
    IsOneLine reference.text := by
  cases hdenotes with
  | named hname => exact .append (by decide) (hnames _ (List.mem_of_getElem? hname))
  | literal _ => exact hoperands term hmem

theorem MeansSubsumption.isOneLine_summary {query : SubsumptionQuery}
    (hmeans : MeansSubsumption names operands query) : IsOneLine query.summary := by
  obtain ⟨hsuper, hsub, -⟩ := hmeans
  have hsuperText := hsuper.isOneLine_text hnames hoperands (by simp)
  have hsubText := hsub.isOneLine_text hnames hoperands (by simp)
  exact .append (.append (.append (by decide) hsuperText) (by decide)) hsubText

/-- The variable that receives a bound, and the classes whose bound it is. -/
theorem MeansBound.texts_on_one_line {query : BoundQuery}
    (hmeans : MeansBound names operands query) :
    (∀ name ∈ query.resultVariable, IsOneLine name) ∧ ∀ name ∈ query.classes, IsOneLine name := by
  obtain ⟨hvariable, hclasses⟩ := hmeans.origins
  refine ⟨fun name hname => hnames name (hvariable name hname), fun text htext => ?_⟩
  obtain ⟨operand, hmem, rfl⟩ := hclasses text htext
  exact hoperands operand hmem

theorem MeansBound.isOneLine_summary {query : BoundQuery}
    (hmeans : MeansBound names operands query) : IsOneLine query.summary := by
  obtain ⟨hvariable, hclasses⟩ := hmeans.texts_on_one_line hnames hoperands
  have hresult : IsOneLine ((query.resultVariable.map ("?" ++ ·)).getD "unused") := by
    cases hname : query.resultVariable with
    | none => decide
    | some name => exact .append (by decide) (hvariable name hname)
  have hlist : IsOneLine (", ".intercalate query.classes) := by
    rw [IsOneLine, String.toList_intercalate]
    exact Term.lineFeed_not_mem_commaSeparated (List.forall_mem_map.mpr hclasses)
  exact .append (.append (.append (.append (by decide) hresult) (by decide)) hlist) (by decide)

end

/-- Whatever a line asks, its summary is one line. -/
theorem Requests.isOneLine_summary {text : String} {query : TypeQuery}
    (hrequests : Requests text query) (hline : IsOneLine text) : IsOneLine query.summary := by
  have hparts : ∀ {parts}, IsOneLine parts →
      IsOneLine (query.predicate.name ++ "(" ++ parts ++ ")") := fun hparts =>
    .append (.append (.append (isOneLine_name _) (by decide)) hparts) (by decide)
  cases hrequests with
  | lub hasks _ hmeans | glb hasks _ hmeans
  | subsumes hasks _ hmeans | subsumesPlus hasks _ hmeans =>
      obtain ⟨-, hnames, hoperands⟩ := hasks.texts_on_one_line hline
      exact hparts (hmeans.isOneLine_summary hnames hoperands)

namespace SyntaxError

/-- A position is two numbers, so it puts no line feed in. -/
theorem isOneLine_located (position : Position) {problem : String} (hproblem : IsOneLine problem) :
    IsOneLine (located position problem) := by
  have hline : IsOneLine s!"parse error on line {position.line}" :=
    .append (by decide) (isOneLine_toString _)
  have hplace : IsOneLine s!"parse error on line {position.line}, column {position.column}" :=
    .append (.append hline (by decide)) (isOneLine_toString _)
  exact .append (.append hplace (by decide)) hproblem

theorem isOneLine_message (error : SyntaxError) : IsOneLine error.message := by
  cases error with
  | empty => decide
  | expected what position => exact isOneLine_located _ (by cases what <;> decide +kernel)
  | unexpected what position => exact isOneLine_located _ (by cases what <;> decide +kernel)

end SyntaxError

/-- Whatever is wrong with a line, it is said on one line. -/
theorem Rejected.isOneLine_message {text : String} {error : TypeQueryError}
    (hrejected : Rejected text error) (hline : IsOneLine text) : IsOneLine error.message := by
  cases hrejected with
  | @malformedText error _ => exact error.isOneLine_message
  | notOneAtom _ _ => exact .append (.append (by decide) (isOneLine_toString _)) (by decide)
  | unsupportedPredicate hasks _ =>
      obtain ⟨hsymbol, -, -⟩ := hasks.texts_on_one_line hline
      exact .append (.append (by decide) hsymbol) (by decide +kernel)
  | arityOfSubsumption _ _ _ _ | arityOfBound _ _ _ =>
      exact .append (.append (.append (.append (isOneLine_name _) (by decide)) (by decide))
        (by decide)) (isOneLine_toString _)
  | anonymousOperand _ _ _ _ => exact .append (by decide) (isOneLine_name _)
  | duplicateVariable hasks _ _ hleft _ _ =>
      obtain ⟨-, hnames, -⟩ := hasks.texts_on_one_line hline
      exact .append (.append (by decide) (hnames _ (List.mem_of_getElem? hleft))) (by decide)

end Posl
