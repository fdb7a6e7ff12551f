import Posl.Proofs.Grammar.Acceptance
import Posl.Proofs.WellFormed

/-!
# Texts that are read back

The text of a well-formed clause is a writing of it in the grammar, so reading
the text, as a clause or as a query, gives the clause back.
-/

namespace Posl

open Written

/-! ## Words -/

namespace Written

theorem exists_fraction_of_isUnsignedNumeral {text : List Char}
    (htext : Lexeme.isUnsignedNumeral text) :
    Lexeme.isDigits text ∨ ∃ whole fraction, text = whole ++ '.' :: fraction ∧
      Lexeme.isDigits whole ∧ Lexeme.isDigits fraction := by
  rw [Lexeme.isUnsignedNumeral] at htext
  cases hdrop : text.dropWhile (· != '.') with
  | nil =>
      rw [hdrop] at htext
      exact .inl htext
  | cons c fraction =>
      have hc : c = '.' := by
        have hhead := List.head?_dropWhile_not (· != '.') text
        simpa [hdrop] using hhead
      have hsplit := List.takeWhile_append_dropWhile (p := (· != '.')) (l := text)
      rw [hdrop, hc] at hsplit
      rw [hdrop, Bool.and_eq_true] at htext
      exact .inr ⟨_, fraction, hsplit.symm, htext⟩

/-- What the printer leaves without quotes as a numeral is one in the grammar. -/
theorem isNumeral_of_lexeme {text : List Char} (htext : Lexeme.isNumeral text) :
    IsNumeral text := by
  obtain ⟨sign, digits, rfl, hsign, hdigits⟩ : ∃ sign digits, text = sign ++ digits ∧
      (sign = [] ∨ sign = ['-']) ∧ Lexeme.isUnsignedNumeral digits := by
    unfold Lexeme.isNumeral at htext
    split at htext
    · exact ⟨['-'], _, rfl, .inr rfl, htext⟩
    · exact ⟨[], _, rfl, .inl rfl, htext⟩
  rcases exists_fraction_of_isUnsignedNumeral hdigits with
    hwhole | ⟨whole, fraction, rfl, hwhole, hfraction⟩
  · exact .integer hsign hwhole
  · rw [← List.append_assoc]
    exact .decimal hsign hwhole hfraction

/-- Each quote and each backslash gets a backslash of its own, so the body ends at the quote
that the printer puts behind it. -/
theorem quotedBody_escape (text rest : List Char) :
    QuotedBody text (Lexeme.escape text ++ '"' :: rest) rest := by
  induction text with
  | nil => exact .close
  | cons c text ih =>
      by_cases hc : c = '"' ∨ c = '\\'
      · rw [Lexeme.escape, if_pos hc]
        exact .escaped ih
      · rw [Lexeme.escape, if_neg hc]
        rw [not_or] at hc
        exact .plain hc.1 hc.2 ih

theorem quoted_quote (name : String) (rest : List Char) :
    Quoted name (Lexeme.quote name.toList ++ rest) rest := by
  refine ⟨Lexeme.escape name.toList ++ '"' :: rest, ?_, quotedBody_escape _ _⟩
  simp [Lexeme.quote]

theorem optional_typeSuffix {type : Option String} (htype : Term.IsType type) (rest : List Char) :
    Optional TypeName type (Posl.Term.typeSuffix type ++ rest) rest := by
  cases type with
  | none => exact .none
  | some name =>
      have hname : Identifier name (name.toList ++ rest) rest := ⟨htype name rfl, rfl⟩
      exact .some (.intro .done (.intro .done hname))

/-- Bare or in quotes, a constant is a writing of itself, with its type behind it. -/
theorem constant {name : String} {type : Option String} (htype : Term.IsType type)
    (rest : List Char) :
    Written.Term (.const name type)
      (Lexeme.constant name.toList ++ (Posl.Term.typeSuffix type ++ rest)) rest := by
  have hsuffix := optional_typeSuffix htype rest
  rw [Lexeme.constant]
  split
  · next hplain =>
      rw [Lexeme.isPlain, Bool.or_eq_true, Bool.and_eq_true] at hplain
      rcases hplain with ⟨hname, hunderscore⟩ | hnumeral
      · have hne : name ≠ "_" := by
          rintro rfl
          exact absurd hunderscore (by decide)
        exact .individual ⟨hname, rfl⟩ hne hsuffix
      · exact .number ⟨isNumeral_of_lexeme hnumeral, rfl⟩ hsuffix
  · exact .string (quoted_quote name _) hsuffix

/-! ## Items between commas -/

section

variable {α β : Type} {item : Form α} {value : β → α} {chars : β → List Char}

theorem blank_space (text : List Char) : Blank (' ' :: text) text := .space (by simp) .done

theorem many_of_commaSeparated {others : List β}
    (hitem : ∀ x ∈ others, ∀ rest, item (value x) (chars x ++ rest) rest) (rest : List Char) :
    Many (Then (Token ',') (Then Blank item)) (others.map value)
      (others.flatMap (fun x => [',', ' '] ++ chars x) ++ rest) rest := by
  induction others with
  | nil => exact .nil
  | cons first others ih =>
      have hothers := ih fun x hmem => hitem x (List.mem_cons_of_mem _ hmem)
      have hfirst := hitem first List.mem_cons_self
        (others.flatMap (fun x => [',', ' '] ++ chars x) ++ rest)
      have hspaced : Then Blank item (value first) (' ' :: (chars first ++
          (others.flatMap (fun x => [',', ' '] ++ chars x) ++ rest))) _ :=
        .intro (blank_space _) hfirst
      have hlead : Then (Token ',') (Then Blank item) (value first) _ _ := .intro .done hspaced
      have hmany := Many.cons hlead hothers
      simpa using hmany

theorem series_of_commaSeparated {first : β} {others : List β}
    (hitem : ∀ x ∈ first :: others, ∀ rest, item (value x) (chars x ++ rest) rest)
    (rest : List Char) :
    Series item ((first :: others).map value)
      (Posl.Term.commaSeparated ((first :: others).map chars) ++ rest) rest := by
  have hothers := many_of_commaSeparated (fun x hmem => hitem x (List.mem_cons_of_mem _ hmem)) rest
  have hfirst := hitem first List.mem_cons_self
    (others.flatMap (fun x => [',', ' '] ++ chars x) ++ rest)
  have hseries := Series.intro (Then.intro Blank.done hfirst) hothers
  rw [List.map_cons, List.map_cons, Posl.Term.commaSeparated, intercalate_cons, List.flatMap_map,
    List.append_assoc]
  exact hseries

theorem Series.blank {items : List α} {text next rest : List Char} (hblank : Blank text next)
    (hseries : Series item items next rest) : Series item items text rest := by
  obtain ⟨⟨hlead, hfirst⟩, hothers⟩ := hseries
  exact .intro (.intro (hblank.trans hlead) hfirst) hothers

/-- Arguments as the printer puts them are arguments of the grammar, and none are no
text. -/
theorem items_of_commaSeparated {values : List β}
    (hitem : ∀ x ∈ values, ∀ rest, item (value x) (chars x ++ rest) rest) (rest : List Char) :
    Items item (values.map value) (Posl.Term.commaSeparated (values.map chars) ++ rest) rest := by
  cases values with
  | nil => exact .none
  | cons first others => exact .some (series_of_commaSeparated hitem rest)

end

end Written

/-! ## Terms and atoms -/

namespace Term

variable {names : List String}

/-- The marked text of a term is a writing of it, whatever comes next. -/
theorem IsArgument.written (hnames : ∀ name ∈ names, Lexeme.isIdentifier name.toList)
    {term : Term} (hterm : term.IsArgument)
    (hindices : ∀ index ∈ term.variableIndices, index < names.length) (rest : List Char) :
    Written.Term (term.toSource names) (term.chars names true ++ rest) rest := by
  induction hterm generalizing rest with
  | @var index type htype =>
      have hindex : index < names.length := hindices index (by simp [variableIndices])
      have hname : Identifier (names.getD index "")
          (variableName names index ++ (typeSuffix type ++ rest)) (typeSuffix type ++ rest) := by
        simp only [variableName, List.getD_eq_getElem?_getD, hindex, List.getElem?_eq_getElem,
          Option.getD_some]
        exact ⟨hnames _ (List.getElem_mem hindex), rfl⟩
      have hwritten := Written.Term.named hname (optional_typeSuffix htype rest)
      simpa [chars, toSource] using hwritten
  | anon => exact .mark
  | const htype =>
      rw [chars, List.append_assoc]
      exact Written.constant htype rest
  | @expr functor args hfunctor hne _ ih =>
      have hargs : ∀ arg ∈ args, ∀ rest,
          Written.Term (arg.toSource names) (arg.chars names true ++ rest) rest := by
        intro arg hmem
        apply ih arg hmem
        intro index hindex
        apply hindices
        simp only [variableIndices, variableIndicesOfEach_eq_flatMap]
        exact List.mem_flatMap_of_mem hmem hindex
      have hitems := items_of_commaSeparated hargs (')' :: rest)
      have hwritten := Written.Term.expression ⟨hfunctor, rfl⟩ hne .done hitems .done
      simpa [chars, toSource] using hwritten

/-- An atom is printed in one way, with its object identifier before a caret where the slot
is not anonymous. -/
theorem chars_atom (predicate : String) (oid : Term) (operands : List Term) (marked : Bool) :
    (atom predicate (oid :: operands)).chars names marked =
      predicate.toList ++ '(' :: ((if oid = .anon then [] else oid.chars names marked ++ ['^']) ++
        (commaSeparated (operands.map (chars names marked)) ++ [')'])) := by
  cases oid <;> simp [chars]

theorem IsAtom.written (hnames : ∀ name ∈ names, Lexeme.isIdentifier name.toList)
    {term : Term} (hatom : term.IsAtom)
    (hindices : ∀ index ∈ term.variableIndices, index < names.length) (rest : List Char) :
    Written.Atom (term.toSourceAtom names) (term.chars names true ++ rest) rest := by
  cases hatom with
  | @intro predicate oid operands hpredicate hoid hoperands =>
      simp only [variableIndices, variableIndicesOfEach_eq_flatMap, List.flatMap_cons,
        List.mem_append] at hindices
      have hitems := items_of_commaSeparated (fun operand hmem =>
        (hoperands operand hmem).written hnames fun index hindex =>
          hindices index (.inr (List.mem_flatMap_of_mem hmem hindex))) (')' :: rest)
      have hslot : Optional ObjectIdentifier
          ((if oid = .anon then none else some oid).map (toSource names))
          ((if oid = .anon then [] else oid.chars names true ++ ['^']) ++
            (commaSeparated (operands.map (chars names true)) ++ ')' :: rest))
          (commaSeparated (operands.map (chars names true)) ++ ')' :: rest) := by
        by_cases hanon : oid = .anon
        · simp only [hanon, if_true]
          exact .none
        · have hterm := hoid.written hnames (fun index hindex => hindices index (.inl hindex))
            ('^' :: (commaSeparated (operands.map (chars names true)) ++ ')' :: rest))
          simp only [hanon, if_false, List.append_assoc]
          exact .some (.intro (.intro .done hterm) .done)
      have hwritten := Written.Atom.call ⟨hpredicate, rfl⟩ .done hslot hitems .done
      simpa [chars_atom, toSourceAtom, symbolName?, Term.operands] using hwritten

end Term

/-! ## Clauses -/

namespace Clause

theorem WellFormed.written {clause : Clause} (hclause : clause.WellFormed) {atom : Term}
    (hmem : atom ∈ clause.atoms) (rest : List Char) :
    Written.Atom (atom.toSourceAtom clause.variableNames)
      (atom.chars clause.variableNames true ++ rest) rest :=
  (hclause.isAtom atom hmem).written hclause.isIdentifier
    (fun _ hindex => hclause.lt_length hmem hindex) rest

/-- The text is a writing of a clause and at the same time one of a query. -/
theorem WellFormed.whole_chars {clause : Clause} (hclause : clause.WellFormed) :
    Whole Written.Clause clause.toSource clause.chars ∧
      Whole Query clause.toSource clause.chars := by
  have hatoms : ∀ atom ∈ clause.atoms, ∀ rest,
      Written.Atom (atom.toSourceAtom clause.variableNames)
        (atom.chars clause.variableNames true ++ rest) rest := fun _ => hclause.written
  obtain ⟨head, body, hsplit⟩ := List.exists_cons_of_ne_nil hclause.atoms_ne_nil
  rw [hsplit] at hatoms
  have hhead := hatoms head List.mem_cons_self
  cases body with
  | nil =>
      have hfact : Then Blank Written.Atom (head.toSourceAtom clause.variableNames)
          clause.chars ['.'] := by
        rw [Clause.chars, hsplit]
        exact .intro .done (hhead ['.'])
      rw [Clause.toSource, hsplit]
      exact ⟨.intro (.fact hfact .done) .done,
        .intro (.goals (.intro hfact .nil) (.present .done)) .done⟩
  | cons first others =>
      have hbody := (series_of_commaSeparated (fun atom hmem =>
        hatoms atom (List.mem_cons_of_mem head hmem)) ['.']).blank (blank_space _)
      have hchars : clause.chars = head.chars clause.variableNames true ++
          ' ' :: ':' :: '-' :: ' ' :: (Term.commaSeparated ((first :: others).map
            (·.chars clause.variableNames true)) ++ ['.']) := by
        simp [Clause.chars, hsplit]
      rw [Clause.toSource, hsplit, hchars]
      generalize Term.commaSeparated ((first :: others).map
        (·.chars clause.variableNames true)) ++ ['.'] = inner at hbody ⊢
      have hlead : Then Blank Written.Atom (head.toSourceAtom clause.variableNames)
          (head.chars clause.variableNames true ++ ' ' :: ':' :: '-' :: ' ' :: inner)
          (' ' :: ':' :: '-' :: ' ' :: inner) := .intro .done (hhead _)
      have harrow : Arrow (' ' :: ':' :: '-' :: ' ' :: inner) (' ' :: inner) := blank_space _
      exact ⟨.intro (.rule hlead harrow hbody .done) .done,
        .intro (.rule hlead harrow hbody (.present .done)) .done⟩

/-- Printing a well-formed clause and reading the text gives the clause back. -/
theorem parse_text_of_wellFormed {clause : Clause} (hclause : clause.WellFormed) :
    Clause.parse clause.text = .ok clause ∧ Clause.parseQuery clause.text = .ok clause := by
  have htext : clause.text.toList = clause.chars := String.toList_ofList
  obtain ⟨hwhole, hquery⟩ := hclause.whole_chars
  rw [← htext] at hwhole hquery
  rw [parse_of_whole hwhole, parseQuery_of_whole hquery, hclause.ofSource_toSource]
  exact ⟨rfl, rfl⟩

/-- A rule with an object identifier, a quoted constant, a nested expression and
a variable named by a lone underscore. -/
theorem parse_text_rule :
    let clause : Clause :=
      { atoms := [
          .atom "p" [.var 0 (some "T"), .expr "f" [.const "a\"b" none, .var 1 none]],
          .atom "q" [.anon, .var 1 none]]
        variableNames := ["X", "_"] }
    clause.WellFormed ∧
      Clause.parse clause.text = .ok clause ∧ Clause.parseQuery clause.text = .ok clause := by
  intro clause
  have htype : ∀ {type : String}, Lexeme.isIdentifier type.toList → Term.IsType (some type) := by
    rintro type htype _ ⟨⟩
    exact htype
  have hnone : Term.IsType none := by
    intro type hmem
    cases hmem
  have hexpr : (Term.expr "f" [.const "a\"b" none, .var 1 none]).IsArgument := by
    refine .expr (by decide) (by decide) ?_
    rintro arg (_ | ⟨_, _ | ⟨_, ⟨⟩⟩⟩)
    · exact .const hnone
    · exact .var hnone
  have hclause : clause.WellFormed :=
    { atoms_ne_nil := by simp [clause]
      isAtom := by
        rintro atom (_ | ⟨_, _ | ⟨_, ⟨⟩⟩⟩)
        · exact .intro (by decide) (.var (htype (by decide))) (by simpa using hexpr)
        · exact .intro (by decide) .anon (by simpa using .var hnone)
      names_nodup := by decide
      isIdentifier := by decide
      numbered := by decide }
  exact ⟨hclause, parse_text_of_wellFormed hclause⟩

end Clause

end Posl
