import Posl.Proofs.Grammar.Blank

/-!
# Exchanging the rest of a text

A writing of a word, a term, an atom or a clause is a piece of text that stands
for the same value before any other rest.  Blank space alone is no such piece,
since it may end inside a comment.  Blank space before a token is one.
-/

namespace Posl.Written

variable {α : Type}

/-- Whatever text starts with a writing of the value, the writing is a piece of
it that could stand before any other rest. -/
structure MovableAt (form : Form α) (value : α) : Prop where
  exists_front : ∀ {text rest}, form value text rest →
    ∃ front, text = front ++ rest ∧ ∀ other, form value (front ++ other) other

def Movable (form : Form α) : Prop := ∀ value, MovableAt form value

/-- A form whose writings start neither with a blank nor with a comment. -/
def StartsSolid (form : Form α) : Prop :=
  ∀ {value text rest}, form value text rest → ∃ c tail, text = c :: tail ∧ Solid c

/-- A writing is a piece of the text before the rest, so the rest is no longer than the
text. -/
theorem MovableAt.length_le {form : Form α} {value : α} {text rest : List Char}
    (hmove : MovableAt form value) (hform : form value text rest) :
    rest.length ≤ text.length := by
  obtain ⟨front, rfl, -⟩ := hmove.exists_front hform
  simp

/-! ## Combined forms -/

/-- Blank space may be put before a form whose writings start with a token, which keeps it
from ending inside a comment. -/
theorem MovableAt.blankThen {form : Form α} {value : α} (hstart : StartsSolid form)
    (hmove : MovableAt form value) : MovableAt (Then Blank form) value := by
  constructor
  intro text rest hthen
  obtain ⟨hblank, hform⟩ := hthen
  obtain ⟨c, tail, rfl, hc⟩ := hstart hform
  obtain ⟨lead, rfl, hlead⟩ := hblank.exists_front_of_solid hc
  obtain ⟨front, hfront, hmoved⟩ := hmove.exists_front hform
  refine ⟨lead ++ front, by simp [hfront], fun other => ?_⟩
  rw [List.append_assoc]
  exact .intro (hlead (front ++ other)) (hmoved other)

theorem Blank.moves_token {c : Char} {text rest : List Char} (htoken : Token c text rest)
    (hc : Solid c) :
    ∃ front, text = front ++ rest ∧ ∀ other, Token c (front ++ other) other := by
  obtain ⟨front, rfl, hfront⟩ := htoken.exists_front_of_solid hc
  refine ⟨front ++ [c], by simp, fun other => ?_⟩
  simpa using hfront (c :: other)

theorem MovableAt.tokenThen {form : Form α} {value : α} {c : Char}
    (hmove : MovableAt form value) (hc : Solid c) : MovableAt (Then (Token c) form) value := by
  constructor
  intro text rest hthen
  obtain ⟨htoken, hform⟩ := hthen
  obtain ⟨lead, rfl, hlead⟩ := Blank.moves_token htoken hc
  obtain ⟨front, rfl, hmoved⟩ := hmove.exists_front hform
  refine ⟨lead ++ front, by simp, fun other => ?_⟩
  rw [List.append_assoc]
  exact .intro (hlead (front ++ other)) (hmoved other)

theorem Movable.optional {form : Form α} (hmove : Movable form) : Movable (Optional form) := by
  intro value
  constructor
  intro text rest hoptional
  cases hoptional with
  | none => exact ⟨[], rfl, fun _ => .none⟩
  | some hform =>
      obtain ⟨front, rfl, hmoved⟩ := (hmove _).exists_front hform
      exact ⟨front, rfl, fun other => .some (hmoved other)⟩

/-- What is asked of every value in a list is enough for the list, as in a recursion over
terms it is known of the arguments only. -/
theorem MovableAt.many {form : Form α} {values : List α}
    (hmove : ∀ value ∈ values, MovableAt form value) : MovableAt (Many form) values := by
  induction values with
  | nil =>
      constructor
      intro text rest hmany
      cases hmany
      exact ⟨[], rfl, fun _ => .nil⟩
  | cons first others ih =>
      constructor
      intro text rest hmany
      cases hmany with
      | cons hfirst hothers =>
          obtain ⟨front, rfl, hfront⟩ := (hmove first (by simp)).exists_front hfirst
          have hmoves := ih fun value hmem => hmove value (by simp [hmem])
          obtain ⟨back, rfl, hback⟩ := hmoves.exists_front hothers
          refine ⟨front ++ back, by simp, fun other => ?_⟩
          rw [List.append_assoc]
          exact .cons (hfront (back ++ other)) (hback other)

theorem MovableAt.series {item : Form α} {items : List α} (hstart : StartsSolid item)
    (hmove : ∀ value ∈ items, MovableAt item value) : MovableAt (Series item) items := by
  constructor
  intro text rest hseries
  obtain ⟨hfirst, hothers⟩ := hseries
  have hmoves := (hmove _ List.mem_cons_self).blankThen hstart
  obtain ⟨front, rfl, hfront⟩ := hmoves.exists_front hfirst
  have hmany : MovableAt (Many (Then (Token ',') (Then Blank item))) _ :=
    .many fun value hmem =>
      ((hmove value (List.mem_cons_of_mem _ hmem)).blankThen hstart).tokenThen (by decide)
  obtain ⟨back, rfl, hback⟩ := hmany.exists_front hothers
  refine ⟨front ++ back, by simp, fun other => ?_⟩
  rw [List.append_assoc]
  exact .intro (hfront (back ++ other)) (hback other)

theorem MovableAt.items {item : Form α} {items : List α} (hstart : StartsSolid item)
    (hmove : ∀ value ∈ items, MovableAt item value) : MovableAt (Items item) items := by
  constructor
  intro text rest hitems
  cases hitems with
  | none => exact ⟨[], rfl, fun _ => .none⟩
  | some hseries =>
      obtain ⟨front, rfl, hmoved⟩ := (MovableAt.series hstart hmove).exists_front hseries
      exact ⟨front, rfl, fun other => .some (hmoved other)⟩

theorem Then.length_le {form : Form α} {value : α} {text rest : List Char} (hmove : Movable form)
    (hthen : Then Blank form value text rest) : rest.length ≤ text.length := by
  obtain ⟨hblank, hform⟩ := hthen
  exact Nat.le_trans ((hmove value).length_le hform) hblank.length_le

/-- A token takes at least one character, so a repetition that needs one in each round comes
to an end. -/
theorem Then.length_lt {form : Form α} {c : Char} {value : α} {text rest : List Char}
    (hmove : Movable form) (hthen : Then (Token c) (Then Blank form) value text rest) :
    rest.length < text.length := by
  obtain ⟨htoken, hform⟩ := hthen
  have hlead := htoken.length_le
  have hitem := hform.length_le hmove
  simp only [List.length_cons] at hlead
  omega

/-! ## Words -/

theorem movable_word {accepts : List Char → Prop} : Movable (Word accepts) := by
  intro word
  constructor
  intro text rest hword
  exact ⟨word.toList, hword.2, fun _ => ⟨hword.1, rfl⟩⟩

/-- The closing quote is part of the writing, so nothing behind it belongs to the string. -/
theorem QuotedBody.exists_front {body text rest : List Char} (hbody : QuotedBody body text rest) :
    ∃ front, text = front ++ rest ∧ ∀ other, QuotedBody body (front ++ other) other := by
  induction hbody with
  | close => exact ⟨['"'], rfl, fun _ => .close⟩
  | @escaped c body text rest _ ih =>
      obtain ⟨front, rfl, hmoved⟩ := ih
      exact ⟨'\\' :: c :: front, rfl, fun other => .escaped (hmoved other)⟩
  | @plain c body text rest hquote hescape _ ih =>
      obtain ⟨front, rfl, hmoved⟩ := ih
      exact ⟨c :: front, rfl, fun other => .plain hquote hescape (hmoved other)⟩

theorem movable_quoted : Movable Quoted := by
  intro word
  constructor
  intro text rest hquoted
  obtain ⟨body, rfl, hbody⟩ := hquoted
  obtain ⟨front, rfl, hmoved⟩ := hbody.exists_front
  exact ⟨'"' :: front, rfl, fun other => ⟨front ++ other, rfl, hmoved other⟩⟩

/-- No blank and no percent sign starts a word, so words are found again behind any blank
space. -/
theorem solid_of_isIdentifierStart {c : Char} (hc : Lexeme.isIdentifierStart c) : Solid c := by
  intro hblank
  simp only [List.mem_cons, List.not_mem_nil, or_false] at hblank
  rcases hblank with rfl | rfl | rfl | rfl | rfl <;> simp_all [Lexeme.isIdentifierStart]

theorem solid_of_isDigit {c : Char} (hc : c.isDigit) : Solid c := by
  intro hblank
  simp only [List.mem_cons, List.not_mem_nil, or_false] at hblank
  rcases hblank with rfl | rfl | rfl | rfl | rfl <;> simp_all

/-- An identifier is a character that starts one and characters that may go
on. -/
theorem Identifier.exists_cons {word : String} {text rest : List Char}
    (hword : Identifier word text rest) :
    ∃ c tail, word.toList = c :: tail ∧ text = c :: (tail ++ rest) ∧
      Lexeme.isIdentifierStart c ∧ tail.all Lexeme.isIdentifierRest := by
  obtain ⟨haccepts, rfl⟩ := hword
  cases hlist : word.toList with
  | nil => simp [hlist, Lexeme.isIdentifier] at haccepts
  | cons c tail =>
      rw [hlist, Lexeme.isIdentifier, Bool.and_eq_true] at haccepts
      exact ⟨c, tail, rfl, rfl, haccepts⟩

theorem startsSolid_identifier : StartsSolid Identifier := by
  intro word text rest hword
  obtain ⟨c, tail, -, rfl, hc, -⟩ := hword.exists_cons
  exact ⟨c, tail ++ rest, rfl, solid_of_isIdentifierStart hc⟩

/-- A numeral starts with its sign or its first digit. -/
theorem IsNumeral.exists_cons {word : List Char} (hword : IsNumeral word) :
    ∃ c tail, word = c :: tail ∧ (c = '-' ∨ c.isDigit) := by
  cases hword with
  | @integer sign whole hsign hwhole =>
      cases whole <;> rcases hsign with rfl | rfl <;> simp_all [Lexeme.isDigits]
  | @decimal sign whole fraction hsign hwhole _ =>
      cases whole <;> rcases hsign with rfl | rfl <;> simp_all [Lexeme.isDigits]

theorem startsSolid_numeral : StartsSolid Numeral := by
  intro word text rest hword
  obtain ⟨hnumeral, rfl⟩ := hword
  obtain ⟨c, tail, hcons, hc⟩ := hnumeral.exists_cons
  refine ⟨c, tail ++ rest, by simp [hcons], ?_⟩
  rcases hc with rfl | hdigit
  · decide
  · exact solid_of_isDigit hdigit

theorem movable_typeName : Movable TypeName := fun word =>
  ((movable_word word).blankThen startsSolid_identifier).tokenThen (by decide)

/-! ## Terms, atoms and clauses -/

/-- A term starts with a mark, an underscore, a quote, a sign, a digit or a letter, and each
of them starts a token. -/
theorem startsSolid_term : StartsSolid Term := by
  intro term text rest hterm
  cases hterm with
  | mark => exact ⟨_, _, rfl, by decide⟩
  | underscore => exact ⟨_, _, rfl, by decide⟩
  | named _ _ => exact ⟨_, _, rfl, by decide⟩
  | number hnumeral _ => exact startsSolid_numeral hnumeral
  | string hquoted _ =>
      obtain ⟨body, rfl, -⟩ := hquoted
      exact ⟨_, _, rfl, by decide⟩
  | individual hname _ _ => exact startsSolid_identifier hname
  | expression hname _ _ _ _ => exact startsSolid_identifier hname

/-- A word and the type behind it are moved together. -/
theorem exists_front_typed {form : Form String} (hmove : Movable form) {name : String}
    {type : Option String} {text next rest : List Char} (hname : form name text next)
    (htype : Optional TypeName type next rest) :
    ∃ front, text = front ++ rest ∧
      ∀ other, ∃ next, form name (front ++ other) next ∧ Optional TypeName type next other := by
  obtain ⟨word, rfl, hword⟩ := (hmove name).exists_front hname
  obtain ⟨suffix, rfl, hsuffix⟩ := (movable_typeName.optional type).exists_front htype
  refine ⟨word ++ suffix, by simp, fun other => ⟨suffix ++ other, ?_, hsuffix other⟩⟩
  rw [List.append_assoc]
  exact hword (suffix ++ other)

/-- The induction is on the term, so that it reaches the arguments of an
expression through the list that holds them. -/
theorem movable_term : Movable Term
  | .anon => by
      constructor
      intro text rest hterm
      cases hterm with
      | mark => exact ⟨['?'], rfl, fun _ => .mark⟩
      | underscore => exact ⟨['_'], rfl, fun _ => .underscore⟩
  | .var name type => by
      constructor
      intro text rest hterm
      cases hterm with
      | named hname htype =>
          obtain ⟨front, rfl, hmoved⟩ := exists_front_typed movable_word hname htype
          refine ⟨'?' :: front, rfl, fun other => ?_⟩
          obtain ⟨next, hname, htype⟩ := hmoved other
          exact .named hname htype
  | .const name type => by
      constructor
      intro text rest hterm
      cases hterm with
      | number hname htype =>
          obtain ⟨front, rfl, hmoved⟩ := exists_front_typed movable_word hname htype
          refine ⟨front, rfl, fun other => ?_⟩
          obtain ⟨next, hname, htype⟩ := hmoved other
          exact .number hname htype
      | string hname htype =>
          obtain ⟨front, rfl, hmoved⟩ := exists_front_typed movable_quoted hname htype
          refine ⟨front, rfl, fun other => ?_⟩
          obtain ⟨next, hname, htype⟩ := hmoved other
          exact .string hname htype
      | individual hname hne htype =>
          obtain ⟨front, rfl, hmoved⟩ := exists_front_typed movable_word hname htype
          refine ⟨front, rfl, fun other => ?_⟩
          obtain ⟨next, hname, htype⟩ := hmoved other
          exact .individual hname hne htype
  | .expr functor args => by
      have hargs : MovableAt (Items Term) args :=
        .items startsSolid_term fun arg _ => movable_term arg
      constructor
      intro text rest hterm
      cases hterm with
      | expression hname hne hopen hitems hclose =>
          obtain ⟨word, rfl, hword⟩ := (movable_word _).exists_front hname
          obtain ⟨left, rfl, hleft⟩ := Blank.moves_token hopen (by decide)
          obtain ⟨inner, rfl, hinner⟩ := hargs.exists_front hitems
          obtain ⟨right, rfl, hright⟩ := Blank.moves_token hclose (by decide)
          refine ⟨word ++ left ++ inner ++ right, by simp, fun other => ?_⟩
          have hmoved := Term.expression (hword _) hne (hleft _) (hinner _) (hright other)
          simpa using hmoved

/-- The caret belongs to what stands for an object identifier, so the writing ends in a
token. -/
theorem movable_objectIdentifier : Movable ObjectIdentifier := by
  intro oid
  constructor
  intro text rest hoid
  obtain ⟨hterm, hcaret⟩ := hoid
  obtain ⟨front, rfl, hfront⟩ :=
    ((movable_term oid).blankThen startsSolid_term).exists_front hterm
  obtain ⟨caret, rfl, hmoved⟩ := Blank.moves_token hcaret (by decide)
  refine ⟨front ++ caret, by simp, fun other => ?_⟩
  rw [List.append_assoc]
  exact .intro (hfront (caret ++ other)) (hmoved other)

theorem movable_terms : Movable (Items Term) := fun _ =>
  .items startsSolid_term fun arg _ => movable_term arg

theorem startsSolid_atom : StartsSolid Atom := by
  intro atom text rest hatom
  cases hatom with
  | name hname => exact startsSolid_identifier hname
  | call hname _ _ _ _ => exact startsSolid_identifier hname

/-- An atom without parentheses is a movable piece too, though what follows it decides
whether the reader takes it for one. -/
theorem movable_atom : Movable Atom := by
  intro atom
  constructor
  intro text rest hatom
  cases hatom with
  | name hname =>
      obtain ⟨front, rfl, hmoved⟩ := (movable_word _).exists_front hname
      exact ⟨front, rfl, fun other => .name (hmoved other)⟩
  | call hname hopen hoid hargs hclose =>
      obtain ⟨word, rfl, hword⟩ := (movable_word _).exists_front hname
      obtain ⟨left, rfl, hleft⟩ := Blank.moves_token hopen (by decide)
      obtain ⟨oid, rfl, hmovedoid⟩ := (movable_objectIdentifier.optional _).exists_front hoid
      obtain ⟨inner, rfl, hinner⟩ := (movable_terms _).exists_front hargs
      obtain ⟨right, rfl, hright⟩ := Blank.moves_token hclose (by decide)
      refine ⟨word ++ left ++ oid ++ inner ++ right, by simp, fun other => ?_⟩
      have hmoved := Atom.call (hword _) (hleft _) (hmovedoid _) (hinner _) (hright other)
      simpa using hmoved

theorem movable_blankAtom : Movable (Then Blank Atom) := fun atom =>
  (movable_atom atom).blankThen startsSolid_atom

theorem movable_atoms : Movable (Series Atom) := fun _ =>
  .series startsSolid_atom fun atom _ => movable_atom atom

theorem Blank.moves_arrow {text rest : List Char} (harrow : Arrow text rest) :
    ∃ front, text = front ++ rest ∧ ∀ other, Arrow (front ++ other) other := by
  obtain ⟨front, rfl, hfront⟩ := harrow.exists_front_of_solid (by decide)
  refine ⟨front ++ [':', '-'], by simp, fun other => ?_⟩
  simpa using hfront (':' :: '-' :: other)

theorem Period.exists_front {text rest : List Char} (hperiod : Period text rest) :
    ∃ front, text = front ++ rest ∧ ∀ other, Period (front ++ other) other := by
  cases hperiod with
  | absent => exact ⟨[], rfl, fun _ => .absent⟩
  | present htoken =>
      obtain ⟨front, rfl, hmoved⟩ := Blank.moves_token htoken (by decide)
      exact ⟨front, rfl, fun other => .present (hmoved other)⟩

/-- A clause ends in its period, so clauses may be put one behind the other. -/
theorem movable_clause : Movable Clause := by
  intro atoms
  constructor
  intro text rest hclause
  cases hclause with
  | fact hhead hperiod =>
      obtain ⟨head, rfl, hmovedhead⟩ := (movable_blankAtom _).exists_front hhead
      obtain ⟨period, rfl, hmovedperiod⟩ := Blank.moves_token hperiod (by decide)
      refine ⟨head ++ period, by simp, fun other => ?_⟩
      rw [List.append_assoc]
      exact .fact (hmovedhead (period ++ other)) (hmovedperiod other)
  | rule hhead harrow hbody hperiod =>
      obtain ⟨head, rfl, hmovedhead⟩ := (movable_blankAtom _).exists_front hhead
      obtain ⟨arrow, rfl, hmovedarrow⟩ := Blank.moves_arrow harrow
      obtain ⟨body, rfl, hmovedbody⟩ := (movable_atoms _).exists_front hbody
      obtain ⟨period, rfl, hmovedperiod⟩ := Blank.moves_token hperiod (by decide)
      refine ⟨head ++ arrow ++ body ++ period, by simp, fun other => ?_⟩
      have hmoved :=
        Clause.rule (hmovedhead _) (hmovedarrow _) (hmovedbody _) (hmovedperiod other)
      simpa using hmoved

/-- A query may end without a period and then ends as its last atom does. -/
theorem movable_query : Movable Query := by
  intro atoms
  constructor
  intro text rest hquery
  cases hquery with
  | goals hgoals hperiod =>
      obtain ⟨goals, rfl, hmovedgoals⟩ := (movable_atoms _).exists_front hgoals
      obtain ⟨period, rfl, hmovedperiod⟩ := hperiod.exists_front
      refine ⟨goals ++ period, by simp, fun other => ?_⟩
      rw [List.append_assoc]
      exact .goals (hmovedgoals (period ++ other)) (hmovedperiod other)
  | rule hhead harrow hbody hperiod =>
      obtain ⟨head, rfl, hmovedhead⟩ := (movable_blankAtom _).exists_front hhead
      obtain ⟨arrow, rfl, hmovedarrow⟩ := Blank.moves_arrow harrow
      obtain ⟨body, rfl, hmovedbody⟩ := (movable_atoms _).exists_front hbody
      obtain ⟨period, rfl, hmovedperiod⟩ := hperiod.exists_front
      refine ⟨head ++ arrow ++ body ++ period, by simp, fun other => ?_⟩
      have hmoved :=
        Query.rule (hmovedhead _) (hmovedarrow _) (hmovedbody _) (hmovedperiod other)
      simpa using hmoved

/-- No clause is empty, so a program has no more clauses than characters. -/
theorem Clause.length_lt {atoms : List SourceAtom} {text rest : List Char}
    (hclause : Clause atoms text rest) : rest.length < text.length := by
  cases hclause with
  | fact hhead hperiod =>
      have hfirst := hhead.length_le movable_atom
      have hlast := hperiod.length_le
      simp only [List.length_cons] at hlast
      omega
  | rule hhead harrow hbody hperiod =>
      have hfirst := hhead.length_le movable_atom
      have hsecond := harrow.length_le
      have hthird := (movable_atoms _).length_le hbody
      have hlast := hperiod.length_le
      simp only [List.length_cons] at hsecond hlast
      omega

theorem movable_clauses : Movable (Many Clause) := fun _ =>
  .many fun clause _ => movable_clause clause

end Posl.Written
