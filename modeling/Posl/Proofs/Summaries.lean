import Posl.Proofs.Arithmetic
import Posl.Proofs.QueryDecisions
import Posl.Proofs.RoundTrip
import Posl.TypeQuery.Summary

/-!
# What a summary tells

The summary of a request puts the texts of classes between commas, and these texts may
hold commas, parentheses and brackets of their own.  They hold them in strings and in
parentheses only, so that a summary can be taken apart in one way, and two requests with
one summary are the same.
-/

namespace Posl

open Written

/-! ## Where an item ends -/

/-- Where a text stands: in how many parentheses, and whether in a string and behind a
backslash there. -/
inductive Nesting where
  | outside (depth : Nat)
  | inString (depth : Nat)
  | escaped (depth : Nat)
  deriving DecidableEq

namespace Nesting

def next : Nesting → Char → Nesting
  | outside depth, '(' => outside (depth + 1)
  | outside depth, ')' => outside (depth - 1)
  | outside depth, '"' => inString depth
  | outside depth, _ => outside depth
  | inString depth, '"' => outside depth
  | inString depth, '\\' => escaped depth
  | inString depth, _ => inString depth
  | escaped depth, _ => inString depth

theorem next_outside {c : Char} (hopen : c ≠ '(') (hclose : c ≠ ')') (hquote : c ≠ '"')
    (depth : Nat) : (outside depth).next c = outside depth := by
  unfold next
  split <;> simp_all

theorem next_inString {c : Char} (hquote : c ≠ '"') (hbackslash : c ≠ '\\') (depth : Nat) :
    (inString depth).next c = inString depth := by
  unfold next
  split <;> simp_all

end Nesting

/-- The text up to a comma that stands in no parentheses and in no string. -/
def takeItem : Nesting → List Char → List Char
  | _, [] => []
  | nesting, c :: text =>
    if nesting = .outside 0 ∧ c = ',' then [] else c :: takeItem (nesting.next c) text

/-- Any character but a comma outside of strings and parentheses is taken in. -/
theorem takeItem_cons {nesting : Nesting} {c : Char}
    (hgoes : nesting = .outside 0 → c ≠ ',') (text : List Char) :
    takeItem nesting (c :: text) = c :: takeItem (nesting.next c) text :=
  if_neg (not_and.mpr hgoes)

section

variable (depth : Nat) (text : List Char)

theorem takeItem_quote :
    takeItem (.outside depth) ('"' :: text) = '"' :: takeItem (.inString depth) text :=
  takeItem_cons (by simp) text

theorem takeItem_closingQuote :
    takeItem (.inString depth) ('"' :: text) = '"' :: takeItem (.outside depth) text :=
  takeItem_cons (by simp) text

/-- Behind a backslash in a string any character is taken in, a quote among them. -/
theorem takeItem_backslash (c : Char) :
    takeItem (.inString depth) ('\\' :: c :: text) =
      '\\' :: c :: takeItem (.inString depth) text := by
  have hescaped : takeItem (.escaped depth) (c :: text) = c :: takeItem (.inString depth) text :=
    takeItem_cons (by simp) text
  exact (takeItem_cons (by simp) _).trans (congrArg ('\\' :: ·) hescaped)

theorem takeItem_opening :
    takeItem (.outside depth) ('(' :: text) = '(' :: takeItem (.outside (depth + 1)) text :=
  takeItem_cons (by simp) text

theorem takeItem_closing :
    takeItem (.outside (depth + 1)) (')' :: text) = ')' :: takeItem (.outside depth) text :=
  takeItem_cons (by simp) text

theorem takeItem_comma :
    takeItem (.outside (depth + 1)) (',' :: text) = ',' :: takeItem (.outside (depth + 1)) text :=
  takeItem_cons (by simp) text

end

/-- A text that an item takes in whole, and then goes on as before. -/
def Nests (depth : Nat) (text : List Char) : Prop :=
  ∀ rest, takeItem (.outside depth) (text ++ rest) = text ++ takeItem (.outside depth) rest

theorem nests_nil (depth : Nat) : Nests depth [] := fun _ => rfl

theorem Nests.append {depth : Nat} {left right : List Char} (hleft : Nests depth left)
    (hright : Nests depth right) : Nests depth (left ++ right) := by
  intro rest
  rw [List.append_assoc, hleft, hright, List.append_assoc]

theorem nests_flatMap {α : Type} {depth : Nat} {chars : α → List Char} {values : List α}
    (hvalues : ∀ value ∈ values, Nests depth (chars value)) :
    Nests depth (values.flatMap chars) := by
  induction values with
  | nil => exact nests_nil depth
  | cons value values ih =>
      obtain ⟨hvalue, hvalues⟩ := List.forall_mem_cons.mp hvalues
      rw [List.flatMap_cons]
      exact hvalue.append (ih hvalues)

/-- Characters that neither end an item nor change the nesting. -/
theorem nests_of_all {accepts : Char → Bool}
    (hplain : ['"', '(', ')', ','].all (!accepts ·)) {text : List Char}
    (htext : text.all accepts) (depth : Nat) : Nests depth text := by
  intro rest
  induction text with
  | nil => rfl
  | cons c text ih =>
      rw [List.all_cons, Bool.and_eq_true] at htext
      have hc : c ∉ ['"', '(', ')', ','] := fun hmem => by
        simpa [htext.1] using List.all_eq_true.mp hplain c hmem
      simp only [List.mem_cons, List.not_mem_nil, or_false, not_or] at hc
      obtain ⟨hquote, hopen, hclose, hcomma⟩ := hc
      rw [List.cons_append, takeItem_cons fun _ => hcomma, Nesting.next_outside hopen hclose hquote,
        ih htext.2, List.cons_append]

/-- What stands in a string is taken in up to the closing quote. -/
theorem takeItem_escape (depth : Nat) (text rest : List Char) :
    takeItem (.inString depth) (Lexeme.escape text ++ '"' :: rest) =
      Lexeme.escape text ++ '"' :: takeItem (.outside depth) rest := by
  induction text with
  | nil => exact takeItem_closingQuote depth rest
  | cons c text ih =>
      rw [Lexeme.escape]
      split
      · simp only [List.cons_append, takeItem_backslash, ih]
      · next hc =>
          rw [not_or] at hc
          rw [List.cons_append, takeItem_cons (by simp), Nesting.next_inString hc.1 hc.2, ih,
            List.cons_append]

theorem nests_quote (text : List Char) (depth : Nat) : Nests depth (Lexeme.quote text) := by
  intro rest
  simp only [Lexeme.quote, List.cons_append, List.append_assoc, List.nil_append, takeItem_quote,
    takeItem_escape]

/-- What stands in parentheses is one level deeper. -/
theorem Nests.parenthesized {depth : Nat} {inner : List Char} (hinner : Nests (depth + 1) inner) :
    Nests depth ('(' :: inner ++ [')']) := by
  intro rest
  simp only [List.cons_append, List.append_assoc, List.nil_append, takeItem_opening, hinner _,
    takeItem_closing]

/-- In parentheses no comma ends an item. -/
theorem nests_commaSeparated {depth : Nat} {items : List (List Char)}
    (hitems : ∀ item ∈ items, Nests (depth + 1) item) :
    Nests (depth + 1) (Term.commaSeparated items) := by
  have hspace : Nests (depth + 1) [' '] := @nests_of_all (· == ' ') (by decide) _ rfl _
  have hseparator : Nests (depth + 1) [',', ' '] := fun rest =>
    (takeItem_comma depth _).trans (congrArg (',' :: ·) (hspace rest))
  cases items with
  | nil => exact nests_nil _
  | cons first others =>
      obtain ⟨hfirst, hothers⟩ := List.forall_mem_cons.mp hitems
      rw [Term.commaSeparated, intercalate_cons]
      exact hfirst.append (nests_flatMap fun item hmem => hseparator.append (hothers item hmem))

/-- A text that is cut where its first item ends is cut in one way. -/
theorem Nests.append_inj {left right rest other : List Char} (hleft : Nests 0 left)
    (hright : Nests 0 right) (hrest : takeItem (.outside 0) rest = [])
    (hother : takeItem (.outside 0) other = []) (htext : left ++ rest = right ++ other) :
    left = right ∧ rest = other := by
  have hitem := congrArg (takeItem (.outside 0)) htext
  rw [hleft, hright, hrest, hother, List.append_nil, List.append_nil] at hitem
  subst hitem
  exact ⟨rfl, List.append_cancel_left htext⟩

/-! ## Words and constants -/

/-- The text of a class: an item takes it in whole, and it does not start with the mark
of a variable. -/
structure IsEntry (text : List Char) : Prop where
  nests : ∀ depth, Nests depth text
  starts : ∃ c tail, text = c :: tail ∧ c ≠ '?'

theorem IsEntry.append {text rest : List Char} (htext : IsEntry text)
    (hrest : ∀ depth, Nests depth rest) : IsEntry (text ++ rest) where
  nests depth := (htext.nests depth).append (hrest depth)
  starts := by
    obtain ⟨c, tail, rfl, hc⟩ := htext.starts
    exact ⟨c, tail ++ rest, rfl, hc⟩

theorem IsEntry.ne_nil {text : List Char} (htext : IsEntry text) : text ≠ [] := by
  obtain ⟨c, tail, rfl, -⟩ := htext.starts
  exact List.cons_ne_nil c tail

theorem nests_singleton {c : Char} (hc : c ∉ ['"', '(', ')', ',']) (depth : Nat) :
    Nests depth [c] := by
  refine @nests_of_all (· == c) (List.all_eq_true.mpr fun d hd => ?_) [c] (by simp) depth
  have hne : d ≠ c := by
    rintro rfl
    exact hc hd
  simpa using hne

namespace Lexeme

theorem all_isIdentifierRest {word : List Char} (hword : isIdentifier word) :
    word.all isIdentifierRest := by
  cases word with
  | nil => rfl
  | cons c rest =>
      rw [isIdentifier, Bool.and_eq_true] at hword
      rw [List.all_cons, Bool.and_eq_true]
      exact ⟨Grammar.isIdentifierRest_of_isIdentifierStart hword.1, hword.2⟩

/-- A word holds none of the characters that the scan looks out for, and does not start with
the mark of a variable. -/
theorem isEntry_of_isIdentifier {word : List Char} (hword : isIdentifier word) :
    IsEntry word where
  nests := nests_of_all (by decide) (all_isIdentifierRest hword)
  starts := by
    cases word with
    | nil => cases hword
    | cons c rest =>
        rw [isIdentifier, Bool.and_eq_true] at hword
        refine ⟨c, rest, rfl, ?_⟩
        rintro rfl
        exact absurd hword.1 (by decide)

theorem nests_of_isDigits {digits : List Char} (hdigits : isDigits digits) (depth : Nat) :
    Nests depth digits :=
  nests_of_all (by decide) (Grammar.isDigits_iff.mp hdigits).2 depth

theorem isEntry_of_isNumeral {text : List Char} (htext : IsNumeral text) : IsEntry text where
  nests depth := by
    have hsign : ∀ {sign : List Char}, sign = [] ∨ sign = ['-'] → Nests depth sign := by
      rintro _ (rfl | rfl)
      · exact nests_nil depth
      · exact nests_singleton (by decide) depth
    cases htext with
    | integer hminus hwhole => exact (hsign hminus).append (nests_of_isDigits hwhole depth)
    | decimal hminus hwhole hfraction =>
        have hpoint : Nests depth ['.'] := nests_singleton (by decide) depth
        exact ((hsign hminus).append (nests_of_isDigits hwhole depth)).append
          (hpoint.append (nests_of_isDigits hfraction depth))
  starts := by
    obtain ⟨c, tail, rfl, hc⟩ := htext.exists_cons
    refine ⟨c, tail, rfl, ?_⟩
    rintro rfl
    exact absurd hc (by decide)

/-- A constant written bare is a word, and any other stands in a string. -/
theorem isEntry_constant (text : List Char) : IsEntry (constant text) := by
  rw [constant]
  split
  · next hplain =>
      rw [isPlain, Bool.or_eq_true, Bool.and_eq_true] at hplain
      rcases hplain with ⟨hword, -⟩ | hnumeral
      · exact isEntry_of_isIdentifier hword
      · exact isEntry_of_isNumeral (isNumeral_of_lexeme hnumeral)
  · exact ⟨nests_quote text, '"', _, rfl, by decide⟩

end Lexeme

/-! ## Texts of terms -/

namespace Term

variable {names : List String} (hnames : ∀ name ∈ names, Lexeme.isIdentifier name.toList)

theorem nests_typeSuffix {type : Option String} (htype : IsType type) (depth : Nat) :
    Nests depth (typeSuffix type) := by
  cases type with
  | none => exact nests_nil depth
  | some name =>
      have hcolon : Nests depth [':'] := nests_singleton (by decide) depth
      exact hcolon.append ((Lexeme.isEntry_of_isIdentifier (htype name rfl)).nests depth)

include hnames

/-- The name that a variable shows is an identifier even where it has only its index. -/
theorem isIdentifier_variableName (index : Nat) :
    Lexeme.isIdentifier (variableName names index) := by
  rw [variableName]
  cases hname : names[index]? with
  | some name => exact hnames name (List.mem_of_getElem? hname)
  | none =>
      rw [Lexeme.isIdentifier, Nat.toString_eq_repr, Nat.toList_repr, Bool.and_eq_true,
        List.all_eq_true]
      refine ⟨by decide, fun c hc => ?_⟩
      rw [Lexeme.isIdentifierRest, Char.isAlphanum, isDigit_of_mem_toDigits hc]
      simp

/-- The text of a term can be taken in whole, with the commas of its arguments in
parentheses and those of its constants in strings. -/
theorem IsArgument.isEntry_chars {term : Term} (hterm : term.IsArgument) :
    IsEntry (term.chars names false) := by
  induction hterm with
  | @var index type htype =>
      have hname := Lexeme.isEntry_of_isIdentifier (isIdentifier_variableName hnames index)
      exact hname.append (nests_typeSuffix htype)
  | anon =>
      have hunderscore : Lexeme.isIdentifier ['_'] := by decide
      exact Lexeme.isEntry_of_isIdentifier hunderscore
  | const htype => exact (Lexeme.isEntry_constant _).append (nests_typeSuffix htype)
  | expr hfunctor _ _ ih =>
      rw [chars, charsOfEach_eq_map, List.append_assoc]
      refine (Lexeme.isEntry_of_isIdentifier hfunctor).append fun depth => .parenthesized ?_
      refine nests_commaSeparated (List.forall_mem_map.mpr fun arg hmem => ?_)
      exact (ih arg hmem).nests (depth + 1)

end Term

/-! ## Lists of classes -/

/-- Behind an item a list ends or goes on with a comma. -/
theorem takeItem_others (others : List (List Char)) :
    takeItem (.outside 0) (others.flatMap ([',', ' '] ++ ·)) = [] := by
  cases others <;> rfl

/-- Items that each stand behind a comma are told apart one by one, from the first. -/
theorem flatMap_comma_inj {left right : List (List Char)} (hleft : ∀ text ∈ left, IsEntry text)
    (hright : ∀ text ∈ right, IsEntry text)
    (htext : left.flatMap ([',', ' '] ++ ·) = right.flatMap ([',', ' '] ++ ·)) :
    left = right := by
  induction left generalizing right with
  | nil =>
      cases right with
      | nil => rfl
      | cons other right => simp at htext
  | cons first left ih =>
      cases right with
      | nil => simp at htext
      | cons other right =>
          obtain ⟨hfirst, hbehind⟩ := List.forall_mem_cons.mp hleft
          obtain ⟨hother, hothers⟩ := List.forall_mem_cons.mp hright
          rw [List.flatMap_cons, List.flatMap_cons, List.append_assoc, List.append_assoc] at htext
          obtain ⟨rfl, hrest⟩ := (hfirst.nests 0).append_inj (hother.nests 0) (takeItem_others left)
            (takeItem_others right) (List.append_cancel_left htext)
          rw [ih hbehind hothers hrest]

/-- The commas between entries tell how many there are, and which. -/
theorem commaSeparated_inj {left right : List (List Char)} (hleft : ∀ text ∈ left, IsEntry text)
    (hright : ∀ text ∈ right, IsEntry text)
    (htext : Term.commaSeparated left = Term.commaSeparated right) : left = right := by
  cases left with
  | nil =>
      cases right with
      | nil => rfl
      | cons other right =>
          rw [Term.commaSeparated, Term.commaSeparated, intercalate_cons] at htext
          have hempty := (List.append_eq_nil_iff.mp htext.symm).1
          exact absurd hempty (hright other List.mem_cons_self).ne_nil
  | cons first left =>
      cases right with
      | nil =>
          rw [Term.commaSeparated, Term.commaSeparated, intercalate_cons] at htext
          have hempty := (List.append_eq_nil_iff.mp htext).1
          exact absurd hempty (hleft first List.mem_cons_self).ne_nil
      | cons other right =>
          obtain ⟨hfirst, hbehind⟩ := List.forall_mem_cons.mp hleft
          obtain ⟨hother, hothers⟩ := List.forall_mem_cons.mp hright
          rw [Term.commaSeparated, Term.commaSeparated, intercalate_cons, intercalate_cons] at htext
          obtain ⟨rfl, hrest⟩ := (hfirst.nests 0).append_inj (hother.nests 0) (takeItem_others left)
            (takeItem_others right) htext
          rw [flatMap_comma_inj hbehind hothers hrest]

/-! ## Requests with one summary -/

namespace ClassRef

/-- A class that its text tells apart from others. -/
def IsLegible : ClassRef → Prop
  | .variable name => Lexeme.isIdentifier name.toList
  | .literal text => IsEntry text.toList

theorem IsLegible.nests_text {reference : ClassRef} (hreference : reference.IsLegible)
    (depth : Nat) : Nests depth reference.text.toList := by
  cases reference with
  | «variable» name =>
      rw [text, String.toList_append]
      have hmark : Nests depth "?".toList := nests_singleton (by decide) depth
      exact hmark.append ((Lexeme.isEntry_of_isIdentifier hreference).nests depth)
  | literal text => exact IsEntry.nests hreference depth

/-- A class that is a variable has a mark in front, and another text has none. -/
theorem IsLegible.eq_of_text {left right : ClassRef} (hleft : left.IsLegible)
    (hright : right.IsLegible) (htext : left.text = right.text) : left = right := by
  have hchars := congrArg String.toList htext
  cases left with
  | «variable» name =>
      cases right with
      | «variable» other =>
          have hname : name.toList = other.toList := by simpa [text] using hchars
          rw [String.toList_inj.mp hname]
      | literal other =>
          obtain ⟨c, tail, hother, hc⟩ := IsEntry.starts hright
          simp [text, hother, hc.symm] at hchars
  | literal name =>
      cases right with
      | «variable» other =>
          obtain ⟨c, tail, hname, hc⟩ := IsEntry.starts hleft
          simp [text, hname, hc] at hchars
      | literal other => rw [show name = other from htext]

end ClassRef

namespace SubsumptionQuery

structure IsLegible (query : SubsumptionQuery) : Prop where
  superType : query.superType.IsLegible
  subType : query.subType.IsLegible

theorem toList_summary (query : SubsumptionQuery) :
    query.summary.toList = "super: ".toList ++
      (query.superType.text.toList ++ (", sub: ".toList ++ query.subType.text.toList)) := by
  change ("super: " ++ query.superType.text ++ ", sub: " ++ query.subType.text).toList = _
  simp only [String.toList_append, List.append_assoc]

/-- The comma between the two classes is the first one that ends an item. -/
theorem IsLegible.eq_of_summary {left right : SubsumptionQuery} (hleft : left.IsLegible)
    (hright : right.IsLegible) (hsummary : left.summary = right.summary) : left = right := by
  have hchars := congrArg String.toList hsummary
  rw [toList_summary, toList_summary] at hchars
  obtain ⟨hsuper, hrest⟩ := (hleft.superType.nests_text 0).append_inj
    (hright.superType.nests_text 0) rfl rfl (List.append_cancel_left hchars)
  have hsub := List.append_cancel_left hrest
  have hsuperType := hleft.superType.eq_of_text hright.superType (String.toList_inj.mp hsuper)
  have hsubType := hleft.subType.eq_of_text hright.subType (String.toList_inj.mp hsub)
  cases left
  cases right
  exact congrArg₂ SubsumptionQuery.mk hsuperType hsubType

end SubsumptionQuery

namespace BoundQuery

structure IsLegible (query : BoundQuery) : Prop where
  resultVariable : ∀ name ∈ query.resultVariable, Lexeme.isIdentifier name.toList
  classes : ∀ text ∈ query.classes, IsEntry text.toList

/-- What a summary shows for the variable that receives the bound. -/
def receiver (query : BoundQuery) : String :=
  (query.resultVariable.map ("?" ++ ·)).getD "unused"

theorem toList_summary (query : BoundQuery) :
    query.summary.toList = "result: ".toList ++ (query.receiver.toList ++
      (", classes: [".toList ++ (Term.commaSeparated (query.classes.map String.toList) ++
        [']']))) := by
  change ("result: " ++ query.receiver ++ ", classes: [" ++ ", ".intercalate query.classes ++
    "]").toList = _
  simp only [String.toList_append, String.toList_intercalate, List.append_assoc]
  rfl

theorem IsLegible.nests_receiver {query : BoundQuery} (hquery : query.IsLegible) (depth : Nat) :
    Nests depth query.receiver.toList := by
  rw [receiver]
  cases hresult : query.resultVariable with
  | none =>
      have hunused : Lexeme.isIdentifier "unused".toList := by decide
      exact (Lexeme.isEntry_of_isIdentifier hunused).nests depth
  | some name =>
      have hvariable : (ClassRef.variable name).IsLegible := hquery.resultVariable name hresult
      exact hvariable.nests_text depth

/-- The receiver is shown with the mark of a variable, and the word for none has no mark. -/
theorem resultVariable_of_receiver {left right : BoundQuery}
    (hreceiver : left.receiver = right.receiver) : left.resultVariable = right.resultVariable := by
  have hchars := congrArg String.toList hreceiver
  rw [receiver, receiver] at hchars
  cases hleft : left.resultVariable <;> cases hright : right.resultVariable <;>
    simp_all [String.toList_inj]

theorem classes_of_commaSeparated {left right : BoundQuery} (hleft : left.IsLegible)
    (hright : right.IsLegible)
    (hclasses : Term.commaSeparated (left.classes.map String.toList) =
      Term.commaSeparated (right.classes.map String.toList)) : left.classes = right.classes := by
  have htexts := commaSeparated_inj (List.forall_mem_map.mpr hleft.classes)
    (List.forall_mem_map.mpr hright.classes) hclasses
  exact List.map_injective_iff.mpr (fun _ _ => String.toList_inj.mp) htexts

/-- The receiver ends at the first comma, and the rest is the list of classes in
brackets. -/
theorem IsLegible.eq_of_summary {left right : BoundQuery} (hleft : left.IsLegible)
    (hright : right.IsLegible) (hsummary : left.summary = right.summary) : left = right := by
  have hchars := congrArg String.toList hsummary
  rw [toList_summary, toList_summary] at hchars
  obtain ⟨hreceiver, hrest⟩ := (hleft.nests_receiver 0).append_inj (hright.nests_receiver 0) rfl rfl
    (List.append_cancel_left hchars)
  have hlist := List.append_cancel_right (List.append_cancel_left hrest)
  have hresultVariable := resultVariable_of_receiver (String.toList_inj.mp hreceiver)
  have hclasses := classes_of_commaSeparated hleft hright hlist
  cases left
  cases right
  exact congrArg₂ BoundQuery.mk hresultVariable hclasses

end BoundQuery

/-- Names of predicates hold no parentheses, so the first one ends the name. -/
theorem TypePredicate.name_append_inj {left right : TypePredicate} {rest other : List Char}
    (htext : left.name.toList ++ '(' :: rest = right.name.toList ++ '(' :: other) :
    left = right ∧ rest = other := by
  have hname : ∀ (predicate : TypePredicate) (rest : List Char),
      (predicate.name.toList ++ '(' :: rest).takeWhile (· != '(') = predicate.name.toList := by
    intro predicate rest
    have hparen : predicate.name.toList.all (· != '(') := by cases predicate <;> decide
    exact (Grammar.takeWhile_append_of_head hparen (by simp)).1
  have hnames := congrArg (List.takeWhile (· != '(')) htext
  rw [hname, hname] at hnames
  obtain rfl := TypePredicate.eq_of_foldCase_name (congrArg (List.map Char.toLower) hnames)
  exact ⟨rfl, (List.cons.inj (List.append_cancel_left htext)).2⟩

namespace TypeQuery

def IsLegible : TypeQuery → Prop
  | .lub query | .glb query => query.IsLegible
  | .subsumes query | .subsumesPlus query => query.IsLegible

/-- What a summary shows in parentheses. -/
def parts : TypeQuery → String
  | .lub query | .glb query => query.summary
  | .subsumes query | .subsumesPlus query => query.summary

theorem toList_summary (query : TypeQuery) :
    query.summary.toList = query.predicate.name.toList ++ '(' :: (query.parts.toList ++ [')']) := by
  have hsummary : query.summary = query.predicate.name ++ "(" ++ query.parts ++ ")" := by
    cases query <;> rfl
  rw [hsummary]
  simp only [String.toList_append, List.append_assoc]
  rfl

/-- Equal summaries have one predicate, and within each kind of request the parts in
parentheses tell it. -/
theorem IsLegible.eq_of_summary {left right : TypeQuery} (hleft : left.IsLegible)
    (hright : right.IsLegible) (hsummary : left.summary = right.summary) : left = right := by
  have hchars := congrArg String.toList hsummary
  rw [toList_summary, toList_summary] at hchars
  obtain ⟨hpredicate, hrest⟩ := TypePredicate.name_append_inj hchars
  have hparts := String.toList_inj.mp (List.append_cancel_right hrest)
  cases left <;> cases right <;> try cases hpredicate
  case lub.lub => exact congrArg lub (BoundQuery.IsLegible.eq_of_summary hleft hright hparts)
  case glb.glb => exact congrArg glb (BoundQuery.IsLegible.eq_of_summary hleft hright hparts)
  case subsumes.subsumes =>
    exact congrArg subsumes (SubsumptionQuery.IsLegible.eq_of_summary hleft hright hparts)
  case subsumesPlus.subsumesPlus =>
    exact congrArg subsumesPlus (SubsumptionQuery.IsLegible.eq_of_summary hleft hright hparts)

end TypeQuery

/-! ## Requests that texts make -/

section

variable {text symbol : String} {operands : List Term} {names : List String}

/-- The operands of a query are terms that the grammar lets stand there, so their texts are
taken in whole. -/
theorem Asks.isEntry_bare (hasks : Asks text symbol operands names) {operand : Term}
    (hmem : operand ∈ operands) : IsEntry (operand.bare names).toList := by
  rw [Term.bare, String.toList_ofList]
  exact (hasks.isArgument hmem).isEntry_chars hasks.isIdentifier

theorem Asks.isLegible_of_denotes (hasks : Asks text symbol operands names) {term : Term}
    {reference : ClassRef} (hdenotes : term.Denotes names reference) (hmem : term ∈ operands) :
    reference.IsLegible := by
  cases hdenotes with
  | named hname => exact hasks.isIdentifier _ (List.mem_of_getElem? hname)
  | literal _ => exact hasks.isEntry_bare hmem

theorem Asks.isLegible_of_meansSubsumption (hasks : Asks text symbol operands names)
    {query : SubsumptionQuery} (hmeans : MeansSubsumption names operands query) :
    query.IsLegible := by
  obtain ⟨hsuper, hsub, -⟩ := hmeans
  exact ⟨hasks.isLegible_of_denotes hsuper (by simp), hasks.isLegible_of_denotes hsub (by simp)⟩

theorem Asks.isLegible_of_meansBound (hasks : Asks text symbol operands names)
    {query : BoundQuery} (hmeans : MeansBound names operands query) : query.IsLegible := by
  obtain ⟨hvariable, hclasses⟩ := hmeans.origins
  constructor
  · exact fun name hname => hasks.isIdentifier name (hvariable name hname)
  · intro entry hentry
    obtain ⟨operand, hmem, rfl⟩ := hclasses entry hentry
    exact hasks.isEntry_bare hmem

end

/-- All classes of a request were operands, or the variables of operands. -/
theorem Requests.isLegible {text : String} {query : TypeQuery} (hrequests : Requests text query) :
    query.IsLegible := by
  cases hrequests with
  | lub hasks _ hmeans | glb hasks _ hmeans => exact hasks.isLegible_of_meansBound hmeans
  | subsumes hasks _ hmeans | subsumesPlus hasks _ hmeans =>
      exact hasks.isLegible_of_meansSubsumption hmeans

namespace TypeQuery

/-- Two texts whose requests have one summary make one request: with the same predicate,
the same variable for a bound or none, the same classes in order, and the same variables
in their places. -/
theorem eq_of_summary_eq {left right : String} {query other : TypeQuery}
    (hquery : parse left = .ok query) (hother : parse right = .ok other)
    (hsummary : query.summary = other.summary) : query = other :=
  (parse_eq_ok_iff.mp hquery).isLegible.eq_of_summary (parse_eq_ok_iff.mp hother).isLegible hsummary

/-- Two spellings of one request, with the words of a summary inside its classes. -/
theorem eq_of_summary_eq_respelled :
    let left := "LUB(o^?unused:T, f(\"), sub: [a, \\\"\", ?X), \"unused], b\")."
    let right := "lub(?unused, _, f( \"), sub: [a, \\\"\" , X ), \"unused], b\")"
    ∃ query other, parse left = .ok query ∧ parse right = .ok other ∧
      query.summary = other.summary ∧ query = other := by
  intro left right
  let query := TypeQuery.lub
    { resultVariable := some "unused"
      classes := ["f(\"), sub: [a, \\\"\", X)", "\"unused], b\""] }
  have hleft : parse left = .ok query := by decide +kernel
  have hright : parse right = .ok query := by decide +kernel
  exact ⟨query, query, hleft, hright, rfl, eq_of_summary_eq hleft hright rfl⟩

end TypeQuery

end Posl
