import Posl.Proofs.Grammar.Readers

/-!
# What is written is read

A writing of a form is read as its value, provided that what comes next cannot
be taken for a part of it.  Readers take as much as they can and never come back
to a choice they are committed to, so each lemma has to exclude every other
reading of the text.
-/

namespace Posl.Grammar

open Reader Written

variable {α : Type} {reader : Reader α} {form : Form α}

/-- A reader reads each writing of a form that is no longer than the bound and
has the right text behind it. -/
structure Accepts (bound : Nat) (reader : Reader α) (form : Form α)
    (follow : List Char → Prop) : Prop where
  read : ∀ {value text rest}, text.length ≤ bound → form value text rest → follow rest →
    reader text = .ok value rest

/-! ## Blank space and tokens -/

/-- A token is found behind any blank space, as no comment reaches over it. -/
theorem token_of_token {c : Char} {text rest : List Char} (htoken : Token c text rest)
    (hc : Solid c) : token c text = .ok () rest := by
  have hskip := htoken.skipBlank_solid hc
  simp [token, blank, hskip, char, satisfy, Outcome.bind, Outcome.map]

theorem token_of_ne {c : Char} {text : List Char} (hne : ∀ rest, skipBlank text ≠ c :: rest) :
    token c text = .mismatch (skipBlank text) := by
  cases hskip : skipBlank text with
  | nil => simp [token, blank, hskip, char, satisfy, Outcome.bind, Outcome.map]
  | cons first rest =>
      have hfirst : first ≠ c := by
        rintro rfl
        exact hne rest hskip
      simp [token, blank, hskip, char, satisfy, Outcome.bind, Outcome.map, hfirst]

theorem token_of_follow {c : Char} {stops text : List Char} (hfollow : Follow stops text)
    (hc : c ∉ stops) : token c text = .mismatch (skipBlank text) :=
  token_of_ne fun rest hskip => hc (hfollow c rest hskip)

theorem attempt_of_ok {text rest : List Char} {value : α} (hread : reader text = .ok value rest) :
    attempt reader text = .ok (some value) rest := by
  simp [attempt, hread]

theorem attempt_of_mismatch {text rest : List Char} (hread : reader text = .mismatch rest) :
    attempt reader text = .ok none text := by
  simp [attempt, hread]

theorem orElse_of_ok {other : Reader α} {text rest : List Char} {value : α}
    (hread : reader text = .ok value rest) : orElse reader other text = .ok value rest := by
  simp [orElse, hread]

theorem orElse_of_mismatch {other : Reader α} {text rest : List Char}
    (hread : reader text = .mismatch rest) : orElse reader other text = other text := by
  simp [orElse, hread]

/-! ## Repetitions -/

/-- The repetition stops where its item does not match, and each item before that
is followed by the next one. -/
theorem manyUpTo_of_many {bound : Nat} {follow : List Char → Prop}
    (haccepts : Accepts bound reader form follow)
    (hlength : ∀ {value text rest}, form value text rest → rest.length ≤ text.length)
    (hstart : ∀ {value text rest}, form value text rest → follow text)
    {values : List α} {text rest stop : List Char} {count : Nat}
    (hmany : Many form values text rest) (hcount : values.length ≤ count)
    (hbound : text.length ≤ bound) (hfollow : follow rest)
    (hstop : reader rest = .mismatch stop) :
    manyUpTo reader count text = .ok values rest := by
  induction hmany generalizing count with
  | nil =>
      cases count with
      | zero => rfl
      | succ count => simp [manyUpTo, attempt_of_mismatch hstop, Outcome.bind]
  | @cons first others text next rest hfirst hothers ih =>
      obtain ⟨count, rfl⟩ := Nat.exists_eq_add_one_of_ne_zero (n := count) (by
        simp only [List.length_cons] at hcount
        omega)
      have hnext : follow next := by
        cases hothers with
        | nil => exact hfollow
        | cons hsecond _ => exact hstart hsecond
      have hread := haccepts.read hbound hfirst hnext
      have hrest := ih (by simpa using hcount) (Nat.le_trans (hlength hfirst) hbound) hfollow hstop
      simp [manyUpTo, attempt_of_ok hread, Outcome.bind, Outcome.map, hrest]

/-- Each value takes at least one character, so a text has no more of them than the reader
of repetitions tries. -/
theorem length_le_of_many
    (hlength : ∀ {value text rest}, form value text rest → rest.length < text.length)
    {values : List α} {text rest : List Char} (hmany : Many form values text rest) :
    values.length + rest.length ≤ text.length := by
  induction hmany with
  | nil => simp
  | cons hfirst _ ih =>
      have hless := hlength hfirst
      simp only [List.length_cons]
      omega

/-- Values are read as long as they are there, and no longer: behind the last of them the
reader has to mismatch. -/
theorem many_of_many {bound : Nat} {follow : List Char → Prop}
    (haccepts : Accepts bound reader form follow)
    (hlength : ∀ {value text rest}, form value text rest → rest.length < text.length)
    (hstart : ∀ {value text rest}, form value text rest → follow text)
    {values : List α} {text rest stop : List Char}
    (hmany : Many form values text rest) (hbound : text.length ≤ bound) (hfollow : follow rest)
    (hstop : reader rest = .mismatch stop) : many reader text = .ok values rest := by
  have hcount := length_le_of_many hlength hmany
  exact manyUpTo_of_many haccepts (fun hform => Nat.le_of_lt (hlength hform)) hstart hmany
    (by omega) hbound hfollow hstop

/-- A series is read up to a place where no comma follows. -/
theorem Accepts.separated1 {bound : Nat} {stops ends : List Char}
    (haccepts : Accepts bound reader (Then Blank form) (Follow stops)) (hmove : Movable form)
    (hcomma : ',' ∈ stops) (hsubset : ends ⊆ stops) (hends : ',' ∉ ends) :
    Accepts bound (separated1 (token ',') reader) (Series form) (Follow ends) := by
  constructor
  intro items text rest hbound hseries hfollow
  obtain ⟨hfirst, hothers⟩ := hseries
  have hitem : Accepts bound (do token ','; reader) (Then (Token ',') (Then Blank form))
      (Follow stops) := by
    constructor
    intro value text rest hbound hthen hfollow
    obtain ⟨htoken, hform⟩ := hthen
    have hlength := htoken.length_le
    simp only [List.length_cons] at hlength
    rw [bind_apply, token_of_token htoken (by decide)]
    exact haccepts.read (by omega) hform hfollow
  have hstart : ∀ {value text rest}, Then (Token ',') (Then Blank form) value text rest →
      Follow stops text := by
    intro value text rest hthen
    obtain ⟨htoken, -⟩ := hthen
    exact .of_token htoken hcomma (by decide)
  have hnext : ∀ {values text},
      Many (Then (Token ',') (Then Blank form)) values text rest → Follow stops text := by
    intro values text hmany
    cases hmany with
    | nil => exact hfollow.mono hsubset
    | cons hsecond _ => exact hstart hsecond
  have hread := haccepts.read hbound hfirst (hnext hothers)
  have hshorter := hfirst.length_le hmove
  have hstop : (do token ','; reader) rest = .mismatch (skipBlank rest) := by
    rw [bind_apply, token_of_follow hfollow hends]
    rfl
  have hrest := many_of_many hitem (fun hthen => hthen.length_lt hmove) hstart hothers
    (Nat.le_trans hshorter hbound) (hfollow.mono hsubset) hstop
  simp [Reader.separated1, hread, hrest, Outcome.bind, Outcome.map]

/-- No item may start where a list ends, as a reader that tries for one would go on. -/
theorem Accepts.separated {bound : Nat} {stops ends : List Char}
    (haccepts : Accepts bound reader (Then Blank form) (Follow stops)) (hmove : Movable form)
    (hcomma : ',' ∈ stops) (hsubset : ends ⊆ stops) (hends : ',' ∉ ends)
    (hstop : ∀ {rest}, Follow ends rest → ∃ stop, reader rest = .mismatch stop) :
    Accepts bound (separated (token ',') reader) (Items form) (Follow ends) := by
  constructor
  intro items text rest hbound hitems hfollow
  cases hitems with
  | none =>
      obtain ⟨stop, hmismatch⟩ := hstop hfollow
      simp [Reader.separated, Reader.separated1, attempt, hmismatch, Outcome.bind]
  | some hseries =>
      have hread := (haccepts.separated1 hmove hcomma hsubset hends).read hbound hseries hfollow
      simp [Reader.separated, attempt_of_ok hread, Outcome.bind]

/-- Nothing that follows a closing parenthesis matters to what is read before
it. -/
theorem Accepts.parenthesized {bound : Nat} (haccepts : Accepts bound reader form (Follow [')'])) :
    Accepts (bound + 1) (parenthesized reader) (Parenthesized form) fun _ => True := by
  constructor
  intro value text rest hbound hform _
  obtain ⟨hleft, hvalue, hright⟩ := hform
  have hlength := hleft.length_le
  simp only [List.length_cons] at hlength
  have hread := haccepts.read (by omega) hvalue (.of_token hright (by simp) (by decide))
  simp [Grammar.parenthesized, token_of_token hleft (by decide), commit, hread,
    token_of_token hright (by decide), Outcome.bind, Outcome.map]

/-! ## Words -/

/-- A run ends where the class does, so that it is cut off whole. -/
theorem takeWhile_append_of_head {accepts : Char → Bool} {run rest : List Char}
    (hrun : run.all accepts) (hrest : ∀ c ∈ rest.head?, accepts c = false) :
    (run ++ rest).takeWhile accepts = run ∧ (run ++ rest).dropWhile accepts = rest := by
  have hall : ∀ c ∈ run, accepts c := by simpa using hrun
  rw [List.takeWhile_append_of_pos hall, List.dropWhile_append_of_pos hall]
  cases rest <;> simp_all

/-- A word is read to its end if no character that could go on with it follows. -/
theorem identifier_of_identifier {name : String} {text rest : List Char}
    (hname : Identifier name text rest)
    (hrest : ∀ c ∈ rest.head?, Lexeme.isIdentifierRest c = false) :
    identifier text = .ok name rest := by
  obtain ⟨c, tail, hcons, rfl, hc, htail⟩ := hname.exists_cons
  obtain ⟨htake, hdrop⟩ := takeWhile_append_of_head htail hrest
  rw [identifier_eq, if_pos hc, htake, hdrop, ← hcons, String.ofList_toList]

theorem identifier_of_not_start {c : Char} {text : List Char}
    (hc : Lexeme.isIdentifierStart c = false) :
    identifier (c :: text) = .mismatch (c :: text) := by
  simp [identifier_eq, hc]

theorem identifier_of_head {text : List Char}
    (htext : ∀ c ∈ text.head?, Lexeme.isIdentifierStart c = false) :
    identifier text = .mismatch text := by
  cases text with
  | nil => rfl
  | cons c text => exact identifier_of_not_start (htext c rfl)

theorem takeWhile1_of_run {accepts : Char → Bool} {run rest : List Char} (hne : run ≠ [])
    (hrun : run.all accepts) (hrest : ∀ c ∈ rest.head?, accepts c = false) :
    takeWhile1 accepts (run ++ rest) = .ok run rest := by
  cases run with
  | nil => exact absurd rfl hne
  | cons c run =>
      rw [List.all_cons, Bool.and_eq_true] at hrun
      obtain ⟨htake, hdrop⟩ := takeWhile_append_of_head hrun.2 hrest
      rw [List.cons_append, takeWhile1_eq, if_pos hrun.1, htake, hdrop]

theorem takeWhile1_of_head {accepts : Char → Bool} {text : List Char}
    (htext : ∀ c ∈ text.head?, accepts c = false) :
    takeWhile1 accepts text = .mismatch text := by
  cases text with
  | nil => rfl
  | cons c text => simp [takeWhile1_eq, htext c rfl]

theorem char_of_ne {c first : Char} {text : List Char} (hne : first ≠ c) :
    char c (first :: text) = .mismatch (first :: text) := by
  simp [char, satisfy, hne]

theorem char_of_head {c : Char} {text : List Char} (htext : ∀ first ∈ text.head?, first ≠ c) :
    char c text = .mismatch text := by
  cases text with
  | nil => rfl
  | cons first text => exact char_of_ne (htext first rfl)

@[simp]
theorem char_cons (c : Char) (text : List Char) : char c (c :: text) = .ok c text := by
  simp [char, satisfy]

theorem isDigits_iff {digits : List Char} :
    Lexeme.isDigits digits ↔ digits ≠ [] ∧ digits.all Char.isDigit := by
  simp [Lexeme.isDigits]

/-- A sign that is not there is no hyphen that belongs to something else. -/
theorem attempt_sign {sign text : List Char} (hsign : sign = [] ∨ sign = ['-'])
    (htext : ∀ c ∈ text.head?, c ≠ '-') :
    ∃ minus : Option Char, attempt (char '-') (sign ++ text) = .ok minus text ∧
      minus.toList = sign := by
  rcases hsign with rfl | rfl
  · exact ⟨none, attempt_of_mismatch (char_of_head htext), rfl⟩
  · exact ⟨some '-', attempt_of_ok (char_cons '-' text), rfl⟩

theorem head_ne_of_isDigits {digits rest : List Char} (hdigits : Lexeme.isDigits digits) :
    ∀ c ∈ (digits ++ rest).head?, c ≠ '-' := by
  obtain ⟨hne, hall⟩ := isDigits_iff.mp hdigits
  cases digits with
  | nil => exact absurd rfl hne
  | cons c digits =>
      rintro first hfirst rfl
      obtain rfl : c = '-' := by simpa using hfirst
      simp at hall

/-- Neither a digit nor a point may follow, as the reader would take them for a part of the
numeral. -/
theorem numeral_of_numeral {name : String} {text rest : List Char} (hname : Numeral name text rest)
    (hdigit : ∀ c ∈ rest.head?, c.isDigit = false) (hpoint : ∀ c ∈ rest.head?, c ≠ '.') :
    numeral text = .ok name rest := by
  obtain ⟨hnumeral, rfl⟩ := hname
  obtain ⟨word, rfl⟩ : ∃ word, name = .ofList word := ⟨name.toList, by simp⟩
  rw [String.toList_ofList] at hnumeral ⊢
  cases hnumeral with
  | @integer sign whole hsign hwhole =>
      obtain ⟨hne, hall⟩ := isDigits_iff.mp hwhole
      have hhead : ∀ c ∈ (whole ++ rest).head?, c ≠ '-' := head_ne_of_isDigits hwhole
      obtain ⟨minus, hminus, rfl⟩ := attempt_sign hsign hhead
      have hread := takeWhile1_of_run hne hall hdigit
      have hmismatch : (do let _ ← char '.'; takeWhile1 Char.isDigit : Reader _) rest =
          .mismatch rest := by
        rw [bind_apply, char_of_head hpoint]
        rfl
      simp [numeral, hminus, hread, attempt_of_mismatch hmismatch, Outcome.bind, Outcome.map]
  | @decimal sign whole fraction hsign hwhole hfraction =>
      obtain ⟨hne, hall⟩ := isDigits_iff.mp hwhole
      obtain ⟨hfractionne, hfractionall⟩ := isDigits_iff.mp hfraction
      have hhead : ∀ c ∈ (whole ++ '.' :: (fraction ++ rest)).head?, c ≠ '-' :=
        head_ne_of_isDigits hwhole
      obtain ⟨minus, hminus, rfl⟩ := attempt_sign hsign hhead
      have hread : takeWhile1 Char.isDigit (whole ++ '.' :: (fraction ++ rest)) =
          .ok whole ('.' :: (fraction ++ rest)) := takeWhile1_of_run hne hall (by simp)
      have hpart : (do let _ ← char '.'; takeWhile1 Char.isDigit : Reader _)
          ('.' :: (fraction ++ rest)) = .ok fraction rest := by
        rw [bind_apply, char_cons]
        exact takeWhile1_of_run hfractionne hfractionall hdigit
      simp [numeral, hminus, hread, attempt_of_ok hpart, Outcome.bind, Outcome.map]

theorem not_isDigit_of_isIdentifierStart {c : Char} (hc : Lexeme.isIdentifierStart c) :
    c.isDigit = false := by
  rw [Lexeme.isIdentifierStart, Bool.or_eq_true, beq_iff_eq] at hc
  rcases hc with halpha | rfl
  · rw [Char.isDigit, Bool.and_eq_false_iff]
    unfold Char.isAlpha Char.isUpper Char.isLower at halpha
    simp only [ge_iff_le, Bool.or_eq_true, Bool.and_eq_true, decide_eq_true_eq] at halpha
    grind
  · decide

theorem numeral_of_identifierStart {c : Char} {text : List Char}
    (hc : Lexeme.isIdentifierStart c) : numeral (c :: text) = .mismatch (c :: text) := by
  have hminus : c ≠ '-' := by
    rintro rfl
    simp [Lexeme.isIdentifierStart] at hc
  have hsign : attempt (char '-') (c :: text) = .ok none (c :: text) :=
    attempt_of_mismatch (char_of_ne hminus)
  have hread : takeWhile1 Char.isDigit (c :: text) = .mismatch (c :: text) :=
    takeWhile1_of_head (by simpa using not_isDigit_of_isIdentifierStart hc)
  simp [numeral, hsign, hread, Outcome.bind]

theorem quoted_of_quoted {name : String} {text rest : List Char} (hname : Quoted name text rest) :
    quoted text = .ok name rest := by
  obtain ⟨body, rfl, hbody⟩ := hname
  have hread := quotedBody_eq_some_iff.mpr hbody
  simp [quoted, hread]

/-! ## Types -/

def termStops : List Char := [',', ')', '^']

/-- No token that may follow a term goes on with a word, and neither does a blank. -/
theorem not_isIdentifierRest_of_follow {stops text : List Char} (hfollow : Follow stops text)
    (hstops : stops.all (!Lexeme.isIdentifierRest ·)) :
    ∀ c ∈ text.head?, Lexeme.isIdentifierRest c = false :=
  hfollow.not_accepts hstops (by decide)

/-- The type's name, with its blank space, does not start with the hyphen that
makes an arrow of a colon. -/
theorem head_ne_hyphen_of_identifier {name : String} {text next rest : List Char}
    (hblank : Blank text next) (hname : Identifier name next rest) : text.head? ≠ some '-' := by
  obtain ⟨c, tail, -, rfl, hc, -⟩ := hname.exists_cons
  intro hhead
  obtain ⟨text, rfl⟩ : ∃ other, text = '-' :: other := by
    cases text <;> simp_all
  obtain ⟨rfl, -⟩ : c = '-' ∧ tail ++ rest = text := by
    simpa using hblank.eq_of_solid (by decide)
  simp [Lexeme.isIdentifierStart] at hc

theorem blank_of_blank {c : Char} {text rest : List Char} (hblank : Blank text (c :: rest))
    (hc : Solid c) : blank text = .ok () (c :: rest) := by
  rw [blank, hblank.skipBlank_solid hc]

/-- A type is read wherever one stands. -/
theorem typeSuffix_of_typeName {type : Option String} {text rest : List Char}
    (htype : Optional TypeName type text rest) (hfollow : Follow termStops rest) :
    typeSuffix text = .ok type rest := by
  cases htype with
  | none =>
      apply attempt_of_mismatch
      rw [bind_apply, token_of_follow hfollow (by decide)]
      rfl
  | some hname =>
      obtain ⟨hcolon, hblank, hname⟩ := hname
      have hhead := head_ne_hyphen_of_identifier hblank hname
      have hread := identifier_of_identifier hname
        (not_isIdentifierRest_of_follow hfollow (by decide))
      obtain ⟨c, tail, rfl, hc⟩ := startsSolid_identifier hname
      apply attempt_of_ok
      simp [token_of_token hcolon (by decide), notAhead_char, hhead, blank_of_blank hblank hc,
        hread, Outcome.bind]

/-- Before a type stands its colon, so what may follow a term without its type is one
character more. -/
theorem follow_of_typeName {type : Option String} {text rest : List Char}
    (htype : Optional TypeName type text rest) (hfollow : Follow termStops rest) :
    Follow (':' :: termStops) text := by
  cases htype with
  | none => exact hfollow.mono (by simp)
  | some hname =>
      obtain ⟨hcolon, -⟩ := hname
      exact .of_token hcolon (by simp) (by decide)

/-! ## Terms -/

theorem variableTerm_of_ne {c : Char} {text : List Char} (hc : c ≠ '?') :
    variableTerm (c :: text) = .mismatch (c :: text) := by
  simp [variableTerm, char_of_ne hc, Outcome.bind]

theorem stringTerm_of_ne {c : Char} {text : List Char} (hc : c ≠ '"') :
    stringTerm (c :: text) = .mismatch (c :: text) := by
  simp [stringTerm, quoted_of_ne hc, Outcome.bind]

theorem numberTerm_of_identifierStart {c : Char} {text : List Char}
    (hc : Lexeme.isIdentifierStart c) : numberTerm (c :: text) = .mismatch (c :: text) := by
  simp [numberTerm, numeral_of_identifierStart hc, Outcome.bind]

/-- The kinds of terms in the order in which they are tried. -/
theorem termWithin_of_blank {c : Char} {text rest : List Char} (depth : Nat)
    (hblank : Blank text (c :: rest)) (hc : Solid c) :
    termWithin (depth + 1) text = orElse variableTerm (orElse stringTerm (orElse numberTerm
      (nameTerm (termWithin depth)))) (c :: rest) := by
  rw [termWithin, bind_apply, blank_of_blank hblank hc]
  rfl

/-- The choice between the kinds of terms comes down to names where a name
starts. -/
theorem termWithin_of_identifierStart {c : Char} {text rest : List Char} (depth : Nat)
    (hblank : Blank text (c :: rest)) (hc : Lexeme.isIdentifierStart c) :
    termWithin (depth + 1) text = nameTerm (termWithin depth) (c :: rest) := by
  have hmark : c ≠ '?' := by
    rintro rfl
    simp [Lexeme.isIdentifierStart] at hc
  have hquote : c ≠ '"' := by
    rintro rfl
    simp [Lexeme.isIdentifierStart] at hc
  rw [termWithin_of_blank depth hblank (solid_of_isIdentifierStart hc),
    orElse_of_mismatch (variableTerm_of_ne hmark), orElse_of_mismatch (stringTerm_of_ne hquote),
    orElse_of_mismatch (numberTerm_of_identifierStart hc)]

/-- Where no parenthesis can come next there are no arguments, and nothing is taken off the
text. -/
theorem attempt_parenthesized_of_follow {stops text : List Char} (hfollow : Follow stops text)
    (hparen : '(' ∉ stops) : attempt (parenthesized reader) text = .ok none text := by
  apply attempt_of_mismatch
  rw [parenthesized, bind_apply, token_of_follow hfollow hparen]
  rfl

/-- An underscore alone is the anonymous variable, whatever may follow a term. -/
theorem nameTerm_of_underscore {reader : Reader SourceTerm} {rest : List Char}
    (hfollow : Follow termStops rest) : nameTerm reader ('_' :: rest) = .ok .anon rest := by
  have hname : Identifier "_" ('_' :: rest) rest := ⟨by decide, rfl⟩
  have hread := identifier_of_identifier hname
    (not_isIdentifierRest_of_follow hfollow (by decide))
  simp [nameTerm, hread, Outcome.bind]

/-- A name is an individual as no parenthesis comes next, and its type is read with it. -/
theorem nameTerm_of_individual {reader : Reader SourceTerm} {name : String} {type : Option String}
    {text next rest : List Char} (hname : Identifier name text next) (hne : name ≠ "_")
    (htype : Optional TypeName type next rest) (hfollow : Follow termStops rest) :
    nameTerm reader text = .ok (.const name type) rest := by
  have hnext := follow_of_typeName htype hfollow
  have hread := identifier_of_identifier hname (not_isIdentifierRest_of_follow hnext (by decide))
  have hargs : attempt (parenthesized (separated (token ',') reader)) next = .ok none next :=
    attempt_parenthesized_of_follow hnext (by decide)
  simp [nameTerm, hread, hne, hargs, typeSuffix_of_typeName htype hfollow, Outcome.bind,
    Outcome.map]

/-- Arguments are read by a reader for one level less, which accepts them as they are
shorter. -/
theorem nameTerm_of_expression {bound : Nat} {reader : Reader SourceTerm} {functor : String}
    {args : List SourceTerm} {text next inner close rest : List Char}
    (haccepts : Accepts bound reader (Then Blank Written.Term) (Follow termStops))
    (hstop : ∀ {rest}, Follow [')'] rest → ∃ stop, reader rest = .mismatch stop)
    (hbound : next.length ≤ bound + 1) (hname : Identifier functor text next)
    (hne : functor ≠ "_") (hleft : Token '(' next inner)
    (hargs : Items Written.Term args inner close) (hright : Token ')' close rest) :
    nameTerm reader text = .ok (.expr functor args) rest := by
  have hnext : Follow ['('] next := .of_token hleft (by simp) (by decide)
  have hread := identifier_of_identifier hname (not_isIdentifierRest_of_follow hnext (by decide))
  have hlist : Accepts bound (separated (token ',') reader) (Items Written.Term) (Follow [')']) :=
    haccepts.separated movable_term (by decide) (by decide) (by decide) hstop
  have hcall := attempt_of_ok
    (hlist.parenthesized.read hbound (.intro hleft hargs hright) trivial)
  simp [nameTerm, hread, hne, hcall, Outcome.bind]

/-- No term starts with a closing parenthesis, nor at the end of a text. -/
theorem termWithin_of_close (depth : Nat) {text : List Char} (hfollow : Follow [')'] text) :
    ∃ stop, termWithin depth text = .mismatch stop := by
  cases depth with
  | zero => exact ⟨text, rfl⟩
  | succ depth =>
      refine ⟨skipBlank text, ?_⟩
      rw [termWithin, bind_apply, blank]
      change orElse _ _ _ = _
      cases hskip : skipBlank text with
      | nil => rfl
      | cons c rest =>
          obtain rfl : c = ')' := by simpa using hfollow c rest hskip
          rfl

theorem isIdentifierRest_of_isIdentifierStart {c : Char} (hc : Lexeme.isIdentifierStart c) :
    Lexeme.isIdentifierRest c := by
  grind [Lexeme.isIdentifierStart, Lexeme.isIdentifierRest, Char.isAlphanum]

theorem variableTerm_of_mark {rest : List Char} (hfollow : Follow termStops rest) :
    variableTerm ('?' :: rest) = .ok .anon rest := by
  have hend := not_isIdentifierRest_of_follow hfollow (by decide)
  have hread : identifier rest = .mismatch rest := by
    apply identifier_of_head
    intro c hc
    have hrest := hend c hc
    grind [isIdentifierRest_of_isIdentifierStart]
  simp [variableTerm, attempt_of_mismatch hread, Outcome.bind]

theorem variableTerm_of_named {name : String} {type : Option String} {text next rest : List Char}
    (hname : Identifier name text next) (htype : Optional TypeName type next rest)
    (hfollow : Follow termStops rest) :
    variableTerm ('?' :: text) = .ok (.var name type) rest := by
  have hnext := follow_of_typeName htype hfollow
  have hread := identifier_of_identifier hname (not_isIdentifierRest_of_follow hnext (by decide))
  simp [variableTerm, attempt_of_ok hread, typeSuffix_of_typeName htype hfollow, Outcome.bind,
    Outcome.map]

theorem numberTerm_of_numeral {name : String} {type : Option String} {text next rest : List Char}
    (hname : Numeral name text next) (htype : Optional TypeName type next rest)
    (hfollow : Follow termStops rest) : numberTerm text = .ok (.const name type) rest := by
  have hnext := follow_of_typeName htype hfollow
  have hdigit : ∀ c ∈ next.head?, c.isDigit = false := hnext.not_accepts (by decide) (by decide)
  have hpoint : ∀ c ∈ next.head?, (c == '.') = false := hnext.not_accepts (by decide) (by decide)
  have hread := numeral_of_numeral hname hdigit (by simpa using hpoint)
  simp [numberTerm, hread, typeSuffix_of_typeName htype hfollow, Outcome.bind, Outcome.map]

theorem stringTerm_of_quoted {name : String} {type : Option String} {text next rest : List Char}
    (hname : Quoted name text next) (htype : Optional TypeName type next rest)
    (hfollow : Follow termStops rest) : stringTerm text = .ok (.const name type) rest := by
  simp [stringTerm, quoted_of_quoted hname, typeSuffix_of_typeName htype hfollow, Outcome.bind,
    Outcome.map]

/-- A numeral starts like no variable and no string, so that the readers before it pass it
on. -/
theorem exists_cons_of_numeral {name : String} {text rest : List Char}
    (hname : Numeral name text rest) :
    ∃ c tail, text = c :: tail ∧ Solid c ∧ c ≠ '?' ∧ c ≠ '"' := by
  obtain ⟨c, tail, rfl, hsolid⟩ := startsSolid_numeral hname
  obtain ⟨first, others, hcons, hfirst⟩ := hname.1.exists_cons
  obtain rfl : c = first := by
    have htext := hname.2
    rw [hcons, List.cons_append, List.cons.injEq] at htext
    exact htext.1
  refine ⟨c, tail, rfl, hsolid, ?_, ?_⟩ <;> rintro rfl <;> simp at hfirst

/-- The induction is on the depth, which the length of the text bounds: the
arguments of an expression stand in a shorter text. -/
theorem accepts_termWithin (depth : Nat) :
    Accepts depth (termWithin (depth + 1)) (Then Blank Written.Term) (Follow termStops) := by
  induction depth with
  | zero =>
      constructor
      intro term text rest hbound hthen _
      obtain ⟨hblank, hterm⟩ := hthen
      obtain ⟨c, tail, rfl, -⟩ := startsSolid_term hterm
      have hlength := hblank.length_le
      simp only [List.length_cons] at hlength
      omega
  | succ depth ih =>
      constructor
      intro term text rest hbound hthen hfollow
      obtain ⟨hblank, hterm⟩ := hthen
      cases hterm with
      | mark =>
          rw [termWithin_of_blank _ hblank (by decide)]
          exact orElse_of_ok (variableTerm_of_mark hfollow)
      | underscore =>
          rw [termWithin_of_identifierStart _ hblank (by decide)]
          exact nameTerm_of_underscore hfollow
      | named hname htype =>
          rw [termWithin_of_blank _ hblank (by decide)]
          exact orElse_of_ok (variableTerm_of_named hname htype hfollow)
      | number hname htype =>
          obtain ⟨c, tail, rfl, hc, hmark, hquote⟩ := exists_cons_of_numeral hname
          rw [termWithin_of_blank _ hblank hc, orElse_of_mismatch (variableTerm_of_ne hmark),
            orElse_of_mismatch (stringTerm_of_ne hquote)]
          exact orElse_of_ok (numberTerm_of_numeral hname htype hfollow)
      | string hname htype =>
          have hread := stringTerm_of_quoted hname htype hfollow
          obtain ⟨body, rfl, -⟩ := hname
          rw [termWithin_of_blank _ hblank (by decide),
            orElse_of_mismatch (variableTerm_of_ne (by decide))]
          exact orElse_of_ok hread
      | individual hname hne htype =>
          obtain ⟨c, tail, -, htext, hc, -⟩ := hname.exists_cons
          rw [htext] at hblank
          rw [termWithin_of_identifierStart _ hblank hc, ← htext]
          exact nameTerm_of_individual hname hne htype hfollow
      | expression hname hne hleft hargs hright =>
          obtain ⟨c, tail, -, htext, hc, -⟩ := hname.exists_cons
          have hlength := hblank.length_le
          rw [htext] at hblank hlength
          simp only [List.length_cons, List.length_append] at hlength
          rw [termWithin_of_identifierStart _ hblank hc, ← htext]
          exact nameTerm_of_expression ih (termWithin_of_close _) (by omega) hname hne hleft hargs
            hright

/-- The levels of a term are bounded by the length of its text, so the bound never cuts one
off. -/
theorem term_of_term {term : SourceTerm} {text rest : List Char}
    (hterm : Then Blank Written.Term term text rest) (hfollow : Follow termStops rest) :
    Grammar.term text = .ok term rest :=
  (accepts_termWithin text.length).read (Nat.le_refl _) hterm hfollow

theorem term_of_close {text : List Char} (hfollow : Follow [')'] text) :
    ∃ stop, term text = .mismatch stop :=
  termWithin_of_close _ hfollow

theorem terms_of_items {args : List SourceTerm} {text rest : List Char}
    (hargs : Items Written.Term args text rest) (hfollow : Follow [')'] rest) :
    terms text = .ok args rest := by
  have hterm : Accepts text.length term (Then Blank Written.Term) (Follow termStops) :=
    ⟨fun _ hterm hfollow => term_of_term hterm hfollow⟩
  have hterms : Accepts text.length terms (Items Written.Term) (Follow [')']) :=
    hterm.separated movable_term (by decide) (by decide) (by decide) term_of_close
  exact hterms.read (Nat.le_refl _) hargs hfollow

/-! ## Atoms -/

theorem objectIdentifier_of_some {oid : SourceTerm} {text rest : List Char}
    (hoid : ObjectIdentifier oid text rest) : objectIdentifier text = .ok (some oid) rest := by
  obtain ⟨hterm, hcaret⟩ := hoid
  have hread := term_of_term hterm (.of_token hcaret (by decide) (by decide))
  apply attempt_of_ok
  simp [hread, token_of_token hcaret (by decide), Outcome.bind, Outcome.map]

/-- Without a caret the first operand is read in vain and then read again. -/
theorem objectIdentifier_of_items {args : List SourceTerm} {text rest : List Char}
    (hargs : Items Written.Term args text rest) (hfollow : Follow [')'] rest) :
    objectIdentifier text = .ok none text := by
  cases hargs with
  | none =>
      obtain ⟨stop, hstop⟩ := term_of_close hfollow
      apply attempt_of_mismatch
      rw [bind_apply, hstop]
      rfl
  | some hseries =>
      obtain ⟨first, next, hfirst, hnext⟩ := hseries.exists_first hfollow
      have hread := term_of_term hfirst (hnext.mono (by decide))
      apply attempt_of_mismatch
      rw [bind_apply, hread]
      change (token '^' >>= _) next = _
      rw [bind_apply, token_of_follow hnext (by decide)]
      rfl

/-- A caret decides whether the first term is an object identifier or an operand. -/
theorem objectIdentifier_of_optional {oid : Option SourceTerm} {args : List SourceTerm}
    {text next rest : List Char} (hoid : Optional ObjectIdentifier oid text next)
    (hargs : Items Written.Term args next rest) (hfollow : Follow [')'] rest) :
    objectIdentifier text = .ok oid next := by
  cases hoid with
  | none => exact objectIdentifier_of_items hargs hfollow
  | some hoid => exact objectIdentifier_of_some hoid

def atomStops : List Char := [':', ',', '.']

/-- The object identifier is settled before the operands are read, and is never taken for
one. -/
theorem accepts_call (bound : Nat) :
    Accepts bound (do let oid ← objectIdentifier; return (oid, ← terms)) Call (Follow [')']) := by
  constructor
  intro call text rest _ hcall hfollow
  obtain ⟨next, hoid, hargs⟩ := hcall
  simp [objectIdentifier_of_optional hoid hargs hfollow, terms_of_items hargs hfollow,
    Outcome.bind, Outcome.map]

/-- Behind an atom without arguments no parenthesis may come next, as it would open some. -/
theorem atom_of_atom {atom : SourceAtom} {text rest : List Char}
    (hatom : Then Blank Written.Atom atom text rest) (hfollow : Follow atomStops rest) :
    Grammar.atom text = .ok atom rest := by
  obtain ⟨hblank, hatom⟩ := hatom
  obtain ⟨c, tail, rfl, hc⟩ := startsSolid_atom hatom
  have hskip := blank_of_blank hblank hc
  cases hatom with
  | name hname =>
      have hread := identifier_of_identifier hname
        (not_isIdentifierRest_of_follow hfollow (by decide))
      have hcall : attempt (parenthesized (do
          let oid ← objectIdentifier
          return (oid, ← terms))) rest = .ok none rest :=
        attempt_parenthesized_of_follow hfollow (by decide)
      simp only [Grammar.atom, bind_apply, hskip, hread, hcall, Outcome.bind, pure_apply,
        Option.getD]
  | @call _ oid args _ next _ _ _ _ hname hleft hoid hargs hright =>
      have hnext : Follow ['('] next := .of_token hleft (by simp) (by decide)
      have hread := identifier_of_identifier hname
        (not_isIdentifierRest_of_follow hnext (by decide))
      have hform : Parenthesized Call (oid, args) next rest :=
        .intro hleft ⟨_, hoid, hargs⟩ hright
      have hcall := attempt_of_ok
        ((accepts_call next.length).parenthesized.read (Nat.le_succ _) hform trivial)
      simp only [Grammar.atom, bind_apply, hskip, hread, hcall, Outcome.bind, pure_apply,
        Option.getD]

theorem atoms_of_series {atoms : List SourceAtom} {text rest : List Char}
    (hatoms : Series Written.Atom atoms text rest) (hfollow : Follow ['.'] rest) :
    Grammar.atoms text = .ok atoms rest := by
  have hatom : Accepts text.length atom (Then Blank Written.Atom) (Follow atomStops) :=
    ⟨fun _ hatom hfollow => atom_of_atom hatom hfollow⟩
  have hseries : Accepts text.length Grammar.atoms (Series Written.Atom) (Follow ['.']) :=
    hatom.separated1 movable_atom (by decide) (by decide) (by decide)
  exact hseries.read (Nat.le_refl _) hatoms hfollow

theorem arrow_of_arrow {text rest : List Char} (harrow : Arrow text rest) :
    arrow text = .ok () rest := by
  simp [arrow, token_of_token harrow (by decide), Outcome.bind, Outcome.map]

theorem arrow_of_follow {stops text : List Char} (hfollow : Follow stops text)
    (hcolon : ':' ∉ stops) : arrow text = .mismatch (skipBlank text) := by
  simp [arrow, token_of_follow hfollow hcolon, Outcome.bind]

/-! ## Clauses and queries -/

theorem attempt_body {body : List SourceAtom} {text rest : List Char} (hbody : Body body text rest)
    (hfollow : Follow ['.'] rest) :
    attempt (do arrow; Grammar.atoms) text = .ok (some body) rest := by
  obtain ⟨harrow, hatoms⟩ := hbody
  apply attempt_of_ok
  rw [bind_apply, arrow_of_arrow harrow]
  exact atoms_of_series hatoms hfollow

theorem attempt_body_of_follow {text : List Char} (hfollow : Follow ['.'] text) :
    attempt (do arrow; Grammar.atoms) text = .ok none text := by
  apply attempt_of_mismatch
  rw [bind_apply, arrow_of_follow hfollow (by decide)]
  rfl

/-- No condition on what follows is needed: a clause ends in its period. -/
theorem clause_of_clause {atoms : List SourceAtom} {text rest : List Char}
    (hclause : Written.Clause atoms text rest) : clause text = .ok atoms rest := by
  cases hclause with
  | fact hhead hperiod =>
      have hread := atom_of_atom hhead (.of_token hperiod (by decide) (by decide))
      have hbody := attempt_body_of_follow (.of_token hperiod (by simp) (by decide))
      simp only [clause, bind_apply, hread, hbody, token_of_token hperiod (by decide),
        Outcome.bind, pure_apply, Option.getD]
  | rule hhead harrow hatoms hperiod =>
      have hread := atom_of_atom hhead (.of_arrow harrow (by decide))
      have hbody := attempt_body (.intro harrow hatoms) (.of_token hperiod (by simp) (by decide))
      simp only [clause, bind_apply, hread, hbody, token_of_token hperiod (by decide),
        Outcome.bind, pure_apply, Option.getD]

theorem attempt_period {text rest : List Char} (hperiod : Period text rest)
    (hend : Blank rest []) : ∃ period, attempt (token '.') text = .ok period rest := by
  cases hperiod with
  | absent =>
      have hfollow : Follow [] text := .of_blank hend
      exact ⟨none, attempt_of_mismatch (token_of_follow hfollow List.not_mem_nil)⟩
  | present hperiod => exact ⟨some (), attempt_of_ok (token_of_token hperiod (by decide))⟩

theorem attempt_head {head : SourceAtom} {text rest : List Char} (hhead : Head head text rest) :
    attempt (do let head ← atom; arrow; return head) text = .ok (some head) rest := by
  obtain ⟨hatom, harrow⟩ := hhead
  apply attempt_of_ok
  rw [bind_apply, atom_of_atom hatom (.of_arrow harrow (by decide))]
  change (arrow >>= _) _ = _
  rw [bind_apply, arrow_of_arrow harrow]
  rfl

/-- Without an arrow the first atom is read in vain and then read again. -/
theorem attempt_head_of_series {goals : List SourceAtom} {text rest : List Char}
    (hgoals : Series Written.Atom goals text rest) (hfollow : Follow ['.'] rest) :
    attempt (do let head ← atom; arrow; return head) text = .ok none text := by
  obtain ⟨first, next, hfirst, hnext⟩ := hgoals.exists_first hfollow
  apply attempt_of_mismatch
  rw [bind_apply, atom_of_atom hfirst (hnext.mono (by decide))]
  change (arrow >>= _) next = _
  rw [bind_apply, arrow_of_follow hnext (by decide)]
  rfl

/-- A query is read to the end of its text, with a head or without, and with a period or
without. -/
theorem goals_of_query {atoms : List SourceAtom} {text rest : List Char}
    (hquery : Query atoms text rest) (hend : Blank rest []) : goals text = .ok atoms rest := by
  cases hquery with
  | goals hgoals hperiod =>
      have hfollow := hperiod.follow hend
      obtain ⟨period, hstop⟩ := attempt_period hperiod hend
      simp only [goals, bind_apply, attempt_head_of_series hgoals hfollow,
        atoms_of_series hgoals hfollow, hstop, Outcome.bind, pure_apply, Option.toList,
        List.nil_append]
  | rule hhead harrow hbody hperiod =>
      have hfollow := hperiod.follow hend
      obtain ⟨period, hstop⟩ := attempt_period hperiod hend
      simp only [goals, bind_apply, attempt_head (.intro hhead harrow),
        atoms_of_series hbody hfollow, hstop, Outcome.bind, pure_apply, Option.toList,
        List.singleton_append]

/-- No clause starts in blank space at the end of a text. -/
theorem clause_of_blank {text : List Char} (hend : Blank text []) :
    clause text = .mismatch [] := by
  have hskip : blank text = .ok () [] := by
    rw [blank, blank_nil_iff.mp hend]
  simp only [clause, Grammar.atom, bind_apply, hskip, Outcome.bind]
  rfl

/-- The clauses of a whole text, where nothing but blank space is left for another one. -/
theorem clauses_of_clauses {clauses : List (List SourceAtom)} {text rest : List Char}
    (hclauses : Many Written.Clause clauses text rest) (hend : Blank rest []) :
    many clause text = .ok clauses rest := by
  have hclause : Accepts text.length clause Written.Clause fun _ => True :=
    ⟨fun _ hclause _ => clause_of_clause hclause⟩
  exact many_of_many hclause Clause.length_lt (fun _ => trivial) hclauses (Nat.le_refl _)
    trivial (clause_of_blank hend)

end Posl.Grammar
