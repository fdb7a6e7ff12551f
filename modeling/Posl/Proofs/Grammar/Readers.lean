import Posl.Proofs.Grammar.Sound

/-!
# The readers of the grammar are sound

Each reader of words, terms, atoms and clauses keeps to its written form, and
where it stops in an error the text before that place can be completed.
-/

namespace Posl.Grammar

open Reader Written

variable {α : Type}

/-! ## Words -/

/-- One letter is a word already, so a missing identifier is an error that can be mended. -/
theorem completable_identifier : Completable Identifier [] :=
  ⟨['a'], "a", fun _ => ⟨by decide, rfl⟩⟩

/-- The reader of identifiers as one choice by the first character, with the longest run
behind it. -/
theorem identifier_eq (c : Char) (text : List Char) :
    identifier (c :: text) =
      if Lexeme.isIdentifierStart c then
        .ok (.ofList (c :: text.takeWhile Lexeme.isIdentifierRest))
          (text.dropWhile Lexeme.isIdentifierRest)
      else .mismatch (c :: text) := by
  simp only [identifier, bind_apply, satisfy]
  split <;> rfl

theorem sound_identifier : Sound identifier Identifier := by
  intro text
  cases text with
  | nil => exact .of_completable completable_identifier _
  | cons c text =>
      rw [identifier_eq]
      split
      · next hc =>
          refine ⟨?_, by simp [List.takeWhile_append_dropWhile]⟩
          simp [Lexeme.isIdentifier, hc, List.all_takeWhile]
      · exact .of_completable completable_identifier _

/-- A run of characters of a class, which holds at least one. -/
def Run (accepts : Char → Bool) : Form (List Char) := fun run text rest =>
  (run ≠ [] ∧ run.all accepts) ∧ text = run ++ rest

theorem movable_run {accepts : Char → Bool} : Movable (Run accepts) :=
  fun run => ⟨fun hrun => ⟨run, hrun.2, fun _ => ⟨hrun.1, rfl⟩⟩⟩

/-- Like `identifier_eq`, for runs of one class. -/
theorem takeWhile1_eq (accepts : Char → Bool) (c : Char) (text : List Char) :
    takeWhile1 accepts (c :: text) =
      if accepts c then .ok (c :: text.takeWhile accepts) (text.dropWhile accepts)
      else .mismatch (c :: text) := by
  simp only [takeWhile1, bind_apply, satisfy]
  split <;> rfl

theorem completable_run {accepts : Char → Bool} {c : Char} (hc : accepts c) :
    Completable (Run accepts) [] :=
  ⟨[c], [c], fun _ => ⟨by simp [hc], rfl⟩⟩

/-- A class without characters would have no runs, so one member is asked for. -/
theorem sound_takeWhile1 {accepts : Char → Bool} {c : Char} (hc : accepts c) :
    Sound (takeWhile1 accepts) (Run accepts) := by
  intro text
  cases text with
  | nil => exact .of_completable (completable_run hc) _
  | cons first text =>
      rw [takeWhile1_eq]
      split
      · next hfirst =>
          refine ⟨by simp [hfirst, List.all_takeWhile], ?_⟩
          simp [List.takeWhile_append_dropWhile]
      · exact .of_completable (completable_run hc) _

/-- A fixed character before a form. -/
def After (c : Char) (form : Form α) : Form α := fun value text rest =>
  ∃ next, text = c :: next ∧ form value next rest

theorem movable_exactly (c : Char) : Movable (Exactly c) :=
  fun _ => ⟨fun hform => ⟨[c], hform.2, fun _ => ⟨hform.1, rfl⟩⟩⟩

/-- A fixed character opens the form: where the form is missing, the character is not what
is wrong. -/
theorem sound_after {c : Char} {form : Form α} {reader : Reader α} (hsound : Sound reader form)
    (hopen : Completable form []) : Sound (do let _ ← char c; reader) (After c form) := by
  apply ((Sound.char c).bind (movable_exactly c) (fun _ => hsound) fun _ => hopen).mono
  intro value text rest hseq
  obtain ⟨⟨-, rfl⟩, hform⟩ := hseq
  exact ⟨_, rfl, hform⟩

/-- The last part of a numeral whose first parts are known. -/
def Fraction (sign : Option Char) (whole : List Char) : Form String := fun word text rest =>
  ∃ fraction, word = .ofList (sign.toList ++ whole ++ (fraction.map ('.' :: ·)).getD []) ∧
    Optional (After '.' (Run Char.isDigit)) fraction text rest

/-- A numeral needs no fraction, so it may end behind its whole part. -/
theorem completable_fraction (sign : Option Char) (whole : List Char) :
    Completable (Fraction sign whole) [] :=
  ⟨[], _, fun _ => ⟨none, rfl, .none⟩⟩

/-- The three parts that the reader of numerals finds one by one are the parts of a
numeral. -/
theorem isNumeral_parts {sign : Option Char} {whole : List Char} {fraction : Option (List Char)}
    (hsign : ∀ c ∈ sign, c = '-') (hwhole : Lexeme.isDigits whole)
    (hfraction : ∀ digits ∈ fraction, Lexeme.isDigits digits) :
    IsNumeral (sign.toList ++ whole ++ (fraction.map ('.' :: ·)).getD []) := by
  have hsigns : sign.toList = [] ∨ sign.toList = ['-'] := by
    cases sign <;> simp_all
  cases fraction with
  | none => simpa using IsNumeral.integer hsigns hwhole
  | some digits => exact .decimal hsigns hwhole (hfraction digits rfl)

/-- A run of digits in the grammar is what the printer takes for digits. -/
theorem isDigits_of_run {run text rest : List Char} (hrun : Run Char.isDigit run text rest) :
    Lexeme.isDigits run := by
  simpa [Lexeme.isDigits] using hrun.1

theorem optional_sign {sign : Option Char} {text rest : List Char}
    (hsign : Optional (Exactly '-') sign text rest) :
    (∀ c ∈ sign, c = '-') ∧ text = sign.toList ++ rest := by
  cases hsign with
  | none => simp
  | some hform =>
      obtain ⟨rfl, rfl⟩ := hform
      simp

theorem optional_fraction {fraction : Option (List Char)} {text rest : List Char}
    (hfraction : Optional (After '.' (Run Char.isDigit)) fraction text rest) :
    (∀ digits ∈ fraction, Lexeme.isDigits digits) ∧
      text = (fraction.map ('.' :: ·)).getD [] ++ rest := by
  cases hfraction with
  | none => simp
  | some hform =>
      obtain ⟨next, rfl, hrun⟩ := hform
      have hdigits := isDigits_of_run hrun
      simpa [hrun.2] using hdigits

/-- The parts are read in order, and each is kept in the form of the parts behind it, so
that an error in the fraction is seen together with what stands before it. -/
theorem sound_numeral : Sound numeral Numeral := by
  have hdigits := sound_takeWhile1 (show Char.isDigit '0' by decide)
  have hopen := completable_run (show Char.isDigit '0' by decide)
  have hfraction : ∀ sign whole, Sound _ (Fraction sign whole) := fun sign whole =>
    (sound_after hdigits hopen).attempt.map fun hform => ⟨_, rfl, hform⟩
  have hwhole : ∀ sign, Sound _ (Seq (Run Char.isDigit) (Fraction sign)) := fun sign =>
    hdigits.bind movable_run (hfraction sign) (completable_fraction sign)
  have hsign := (Sound.char '-').attempt.bind (movable_exactly '-').optional hwhole fun sign =>
    hopen.seq (completable_fraction sign)
  apply hsign.mono
  intro value text rest hseq
  obtain ⟨hminus, hrun, fraction, rfl, hpoint⟩ := hseq
  obtain ⟨hsigns, rfl⟩ := optional_sign hminus
  obtain ⟨hdigits, rfl⟩ := optional_fraction hpoint
  refine ⟨?_, ?_⟩
  · rw [String.toList_ofList]
    exact isNumeral_parts hsigns (isDigits_of_run hrun) hdigits
  · rw [String.toList_ofList, hrun.2]
    simp

/-! ## Quoted text -/

/-- The reader of quoted text finds the first quote without a backslash before it, and it is
the only text up to a closing quote that there is. -/
theorem quotedBody_eq_some_iff {text body rest : List Char} :
    quotedBody text = some (body, rest) ↔ QuotedBody body text rest := by
  constructor
  · intro hread
    fun_induction quotedBody text generalizing body rest with
    | case1 => simp at hread
    | case2 text =>
        obtain ⟨rfl, rfl⟩ : [] = body ∧ text = rest := by simpa using hread
        exact .close
    | case3 => simp at hread
    | case4 c text ih =>
        obtain ⟨⟨inner, tail⟩, hinner, heq⟩ := Option.map_eq_some_iff.mp hread
        obtain ⟨rfl, rfl⟩ : c :: inner = body ∧ tail = rest := by simpa using heq
        exact .escaped (ih hinner)
    | case5 c text hquote hlone hescape ih =>
        obtain ⟨⟨inner, tail⟩, hinner, heq⟩ := Option.map_eq_some_iff.mp hread
        obtain ⟨rfl, rfl⟩ : c :: inner = body ∧ tail = rest := by simpa using heq
        refine .plain hquote ?_ (ih hinner)
        rintro rfl
        cases text <;> simp_all
  · intro hbody
    induction hbody with
    | close => rfl
    | escaped _ ih => simp [quotedBody, ih]
    | plain hquote hescape _ ih => simp [quotedBody, hescape, ih]

theorem completable_quoted : Completable Quoted [] :=
  ⟨['"', '"'], "", fun rest => ⟨'"' :: rest, rfl, .close⟩⟩

theorem quoted_of_ne {c : Char} {text : List Char} (hc : c ≠ '"') :
    quoted (c :: text) = .mismatch (c :: text) := by
  unfold quoted
  split <;> simp_all

/-- A string without an end fails where it begins, where any other string could stand. -/
theorem sound_quoted : Sound quoted Quoted := by
  intro text
  unfold quoted
  split
  · next text =>
      split
      · next body rest hread =>
          refine ⟨text, rfl, ?_⟩
          rw [String.toList_ofList]
          exact quotedBody_eq_some_iff.mp hread
      · exact .of_completable completable_quoted _
  · exact .of_completable completable_quoted _

/-! ## Types -/

/-- Looking ahead for a character takes nothing off the text. -/
theorem notAhead_char (c : Char) (text : List Char) :
    notAhead (char c) text = if text.head? = some c then .mismatch text else .ok () text := by
  cases text with
  | nil => rfl
  | cons first text => by_cases hfirst : first = c <;> simp [notAhead, char, satisfy, hfirst]

/-- A look-ahead takes nothing off a text, and what it does not accept is an error
of the reader behind it. -/
theorem sound_notAhead {form : Form α} {reader : Reader α} (c : Char)
    (hsound : Sound reader form) (hopen : Completable form []) :
    Sound (do notAhead (char c); reader) form := by
  intro text
  rw [bind_apply, notAhead_char]
  split
  · exact .of_completable hopen _
  · exact hsound text

theorem completable_blankIdentifier : Completable (Then Blank Identifier) [] :=
  completable_identifier.mono id fun hname => .intro .done hname

/-- A colon before a hyphen is an arrow and stands for no type, so the reader looks ahead
before it goes on. -/
theorem sound_typeSuffix : Sound typeSuffix (Optional TypeName) := by
  have hname := sound_notAhead '-' sound_identifier.blankThen completable_blankIdentifier
  exact (hname.tokenThen completable_blankIdentifier (by decide)).attempt

/-- What is made of a type that may stand next. -/
def Typed (make : Option String → SourceTerm) : Form SourceTerm := fun term text rest =>
  ∃ type, term = make type ∧ Optional TypeName type text rest

theorem sound_typed (make : Option String → SourceTerm) :
    Sound (do return make (← typeSuffix)) (Typed make) :=
  sound_typeSuffix.map fun htype => ⟨_, rfl, htype⟩

/-- A term needs no type, so it may end before one. -/
theorem completable_typed (make : Option String → SourceTerm) : Completable (Typed make) [] :=
  ⟨[], make none, fun _ => ⟨none, rfl, .none⟩⟩

/-! ## Terms -/

theorem completable_term : Completable Written.Term [] :=
  ⟨['?'], .anon, fun _ => .mark⟩

theorem completable_blankTerm : Completable (Then Blank Written.Term) [] :=
  completable_term.mono id fun hterm => .intro .done hterm

/-- What may follow the mark of a variable. -/
def Marked : Option String → Form SourceTerm
  | none => Yields Eq .anon
  | some name => Typed (.var name)

theorem completable_marked (name : Option String) : Completable (Marked name) [] := by
  cases name with
  | none => exact ⟨[], .anon, fun _ => ⟨rfl, rfl⟩⟩
  | some name => exact completable_typed (.var name)

/-- A mark with a name behind it is that variable, and alone it is the anonymous one. -/
theorem sound_variableTerm : Sound variableTerm Written.Term := by
  have hopen := (completable_optional Identifier).seq completable_marked
  refine (sound_after (sound_identifier.attempt.bind movable_word.optional (fun name => ?_)
    completable_marked) hopen).mono fun hafter => ?_
  · cases name with
    | none => exact fun text => ⟨rfl, rfl⟩
    | some name => exact sound_typed (.var name)
  · obtain ⟨next, rfl, hname, hmarked⟩ := hafter
    cases hname with
    | none =>
        obtain ⟨rfl, rfl⟩ := hmarked
        exact .mark
    | some hname =>
        obtain ⟨type, rfl, htype⟩ := hmarked
        exact .named hname htype

theorem sound_stringTerm : Sound stringTerm Written.Term := by
  apply (sound_quoted.bind movable_quoted (fun name => sound_typed (.const name))
    fun name => completable_typed (.const name)).mono
  intro value text rest hseq
  obtain ⟨hname, type, rfl, htype⟩ := hseq
  exact .string hname htype

theorem sound_numberTerm : Sound numberTerm Written.Term := by
  apply (sound_numeral.bind movable_word (fun name => sound_typed (.const name))
    fun name => completable_typed (.const name)).mono
  intro value text rest hseq
  obtain ⟨hname, type, rfl, htype⟩ := hseq
  exact .number hname htype

/-- What may follow a name other than the underscore. -/
def Applied (name : String) : Option (List SourceTerm) → Form SourceTerm
  | none => Typed (.const name)
  | some args => Yields Eq (.expr name args)

def Named (name : String) : Form SourceTerm :=
  if name = "_" then Yields Eq .anon
  else Seq (Optional (Parenthesized (Items Written.Term))) (Applied name)

/-- A name is an individual if nothing follows, and an expression once its arguments are
read. -/
theorem completable_applied (name : String) (args : Option (List SourceTerm)) :
    Completable (Applied name args) [] := by
  cases args with
  | none => exact completable_typed (.const name)
  | some args => exact ⟨[], .expr name args, fun _ => ⟨rfl, rfl⟩⟩

theorem completable_named (name : String) : Completable (Named name) [] := by
  unfold Named
  split
  · exact ⟨[], .anon, fun _ => ⟨rfl, rfl⟩⟩
  · exact (completable_optional _).seq (completable_applied name)

/-- Arguments are sound by assumption, since they are terms of one level less. -/
theorem sound_nameTerm {reader : Reader SourceTerm}
    (hsound : Sound reader (Then Blank Written.Term)) :
    Sound (nameTerm reader) Written.Term := by
  have hargs := ((hsound.separated startsSolid_term movable_term completable_term).parenthesized
    movable_terms completable_items).attempt
  refine (sound_identifier.bind movable_word (fun name => ?_) completable_named).mono
    fun hseq => ?_
  · unfold Named
    split
    · exact fun text => ⟨rfl, rfl⟩
    · refine hargs.bind movable_terms.parenthesized.optional (fun args => ?_)
        (completable_applied name)
      cases args with
      | none => exact sound_typed (.const name)
      | some args => exact fun text => ⟨rfl, rfl⟩
  · obtain ⟨hname, hnamed⟩ := hseq
    unfold Named at hnamed
    split at hnamed
    · next hunderscore =>
        obtain ⟨rfl, rfl⟩ := hnamed
        rw [hname.2, hunderscore]
        exact .underscore
    · next hunderscore =>
        obtain ⟨hargs, happlied⟩ := hnamed
        cases hargs with
        | none =>
            obtain ⟨type, rfl, htype⟩ := happlied
            exact .individual hname hunderscore htype
        | some hargs =>
            obtain ⟨rfl, rfl⟩ := happlied
            obtain ⟨hleft, hitems, hright⟩ := hargs
            exact .expression hname hunderscore hleft hitems hright

/-- The induction is on the levels that are left.  Without any the reader stops at once,
with nothing passed. -/
theorem sound_termWithin (depth : Nat) : Sound (termWithin depth) (Then Blank Written.Term) := by
  induction depth with
  | zero => exact fun text => .of_completable completable_blankTerm text
  | succ depth ih =>
      exact (sound_variableTerm.orElse (sound_stringTerm.orElse (sound_numberTerm.orElse
        (sound_nameTerm ih)))).blankThen

/-- As many levels as characters are enough, but soundness does not depend on how many there
are. -/
theorem sound_term : Sound term (Then Blank Written.Term) :=
  fun text => sound_termWithin (text.length + 1) text

theorem sound_terms : Sound terms (Items Written.Term) :=
  sound_term.separated startsSolid_term movable_term completable_term

/-! ## Atoms -/

/-- A term without a caret behind it is given back, to be read again as the first
operand. -/
theorem sound_objectIdentifier : Sound objectIdentifier (Optional ObjectIdentifier) := by
  have hcaret : ∀ oid : SourceTerm, Sound (do token '^'; return oid)
      (Yields (Token '^') oid) := fun oid => (Sound.token '^').map fun htoken => ⟨rfl, htoken⟩
  have hopen : ∀ oid : SourceTerm, Completable (Yields (Token '^') oid) [] := fun oid =>
    (completable_token '^').mono (fun _ => oid) fun htoken => ⟨rfl, htoken⟩
  have hterm : Movable (Then Blank Written.Term) := fun term =>
    (movable_term term).blankThen startsSolid_term
  have hoid : Sound _ ObjectIdentifier := (sound_term.bind hterm hcaret hopen).mono fun hseq => by
    obtain ⟨hterm, rfl, htoken⟩ := hseq
    exact .intro hterm htoken
  exact hoid.attempt

def Call : Form (Option SourceTerm × List SourceTerm) := fun call text rest =>
  ∃ next, Optional ObjectIdentifier call.1 text next ∧ Items Written.Term call.2 next rest

/-- The object identifier and the operands are a piece of text between the parentheses, even
where there are none. -/
theorem movable_call : Movable Call := by
  intro call
  constructor
  intro text rest hcall
  obtain ⟨next, hoid, hargs⟩ := hcall
  obtain ⟨oid, rfl, hmovedoid⟩ := (movable_objectIdentifier.optional _).exists_front hoid
  obtain ⟨args, rfl, hmovedargs⟩ := (movable_terms _).exists_front hargs
  refine ⟨oid ++ args, by simp, fun other => ?_⟩
  rw [List.append_assoc]
  exact ⟨args ++ other, hmovedoid _, hmovedargs other⟩

theorem completable_call : Completable Call [] :=
  ⟨[], (none, []), fun rest => ⟨rest, .none, .none⟩⟩

theorem sound_call :
    Sound (do let oid ← objectIdentifier; return (oid, ← terms)) Call := by
  have hargs : ∀ oid : Option SourceTerm, Sound (do return (oid, ← terms))
      (fun call text rest => call.1 = oid ∧ Items Written.Term call.2 text rest) := fun oid =>
    sound_terms.map fun hitems => ⟨rfl, hitems⟩
  apply (sound_objectIdentifier.bind movable_objectIdentifier.optional hargs
    fun oid => ⟨[], (oid, []), fun rest => ⟨rfl, .none⟩⟩).mono
  intro value text rest hseq
  obtain ⟨hoid, rfl, hitems⟩ := hseq
  exact ⟨_, hoid, hitems⟩

/-- An atom whose predicate is known. -/
def Called (predicate : String) : Form SourceAtom := fun atom text rest =>
  ∃ call : Option (Option SourceTerm × List SourceTerm),
    atom = { predicate, oid := (call.getD (none, [])).1, args := (call.getD (none, [])).2 } ∧
      Optional (Parenthesized Call) call text rest

theorem completable_called (predicate : String) : Completable (Called predicate) [] :=
  ⟨[], _, fun _ => ⟨none, rfl, .none⟩⟩

theorem completable_atom : Completable Written.Atom [] :=
  completable_identifier.mono (fun predicate => { predicate, oid := none, args := [] }) .name

/-- Arguments follow a predicate or not, and an atom is made of what there is. -/
theorem sound_atom : Sound atom (Then Blank Written.Atom) := by
  have hcalled : ∀ predicate, Sound _ (Called predicate) := fun predicate =>
    (sound_call.parenthesized movable_call completable_call).attempt.map fun hcall =>
      ⟨_, rfl, hcall⟩
  apply (sound_identifier.bind movable_word hcalled completable_called).blankThen.mono
  intro value text rest hthen
  obtain ⟨hblank, hname, call, rfl, hcall⟩ := hthen
  refine .intro hblank ?_
  cases hcall with
  | none => exact .name hname
  | some hcall =>
      obtain ⟨hleft, ⟨next, hoid, hargs⟩, hright⟩ := hcall
      exact .call hname hleft hoid hargs hright

theorem sound_atoms : Sound atoms (Series Written.Atom) :=
  sound_atom.separated1 startsSolid_atom movable_atom completable_atom

theorem sound_arrow : Sound arrow fun _ => Arrow := by
  have hhyphen : Sound (do let _ ← char '-') fun _ text rest => text = '-' :: rest :=
    (Sound.char '-').map fun hform => hform.2
  apply (hhyphen.tokenThen ⟨['-'], (), fun _ => rfl⟩ (by decide)).mono
  intro value text rest hthen
  obtain ⟨htoken, rfl⟩ := hthen
  exact htoken

theorem movable_arrow : Movable fun _ : Unit => Arrow :=
  fun _ => ⟨fun harrow => Blank.moves_arrow harrow⟩

theorem completable_arrow : Completable (fun _ : Unit => Arrow) [] :=
  ⟨[':', '-'], (), fun _ => .done⟩

/-! ## Clauses and queries -/

theorem completable_atoms : Completable (Series Written.Atom) [] := by
  obtain ⟨more, atom, hmore⟩ := completable_atom
  exact ⟨more, [atom], fun rest => .intro (.intro .done (hmore rest)) .nil⟩

def Body : Form (List SourceAtom) := Then Arrow (Series Written.Atom)

theorem sound_body : Sound (do arrow; atoms) Body := by
  apply (sound_arrow.bind movable_arrow (fun _ => sound_atoms) fun _ => completable_atoms).mono
  intro value text rest hseq
  obtain ⟨harrow, hatoms⟩ := hseq
  exact .intro harrow hatoms

theorem movable_body : Movable Body := by
  intro body
  constructor
  intro text rest hbody
  obtain ⟨harrow, hatoms⟩ := hbody
  obtain ⟨front, rfl, hfront⟩ := Blank.moves_arrow harrow
  obtain ⟨back, rfl, hback⟩ := (movable_atoms _).exists_front hatoms
  refine ⟨front ++ back, by simp, fun other => ?_⟩
  rw [List.append_assoc]
  exact .intro (hfront (back ++ other)) (hback other)

/-- A head, a body with its arrow or none, and the period, which a clause may not leave
out. -/
theorem sound_clause : Sound clause Written.Clause := by
  have hperiod : ∀ atoms : List SourceAtom, Sound (do token '.'; return atoms)
      (Yields (Token '.') atoms) := fun atoms => (Sound.token '.').map fun htoken => ⟨rfl, htoken⟩
  have hopen : ∀ atoms : List SourceAtom, Completable (Yields (Token '.') atoms) [] :=
    fun atoms => (completable_token '.').mono (fun _ => atoms) fun htoken => ⟨rfl, htoken⟩
  have hbody := fun head : SourceAtom => sound_body.attempt.bind movable_body.optional
    (fun body => hperiod (head :: body.getD [])) fun body => hopen (head :: body.getD [])
  apply (sound_atom.bind movable_blankAtom hbody fun head =>
    (completable_optional _).seq fun body => hopen (head :: body.getD [])).mono
  intro value text rest hseq
  obtain ⟨hhead, hbody, rfl, htoken⟩ := hseq
  cases hbody with
  | none => exact .fact hhead htoken
  | some hbody =>
      obtain ⟨harrow, hatoms⟩ := hbody
      exact .rule hhead harrow hatoms htoken

/-- A query up to the blank space behind it. -/
def goals : Reader (List SourceAtom) := do
  let head ← attempt do
    let head ← atom
    arrow
    return head
  let body ← atoms
  let _ ← attempt (token '.')
  return head.toList ++ body

/-- The blank space behind a query is set apart, so that it is treated as behind a
clause. -/
theorem query_eq : query = (do let atoms ← goals; blank; return atoms) := by
  simp [query, goals]

inductive Head : Form SourceAtom
  | intro {head text next rest} : Then Blank Written.Atom head text next → Arrow next rest →
      Head head text rest

theorem movable_head : Movable Head := by
  intro head
  constructor
  intro text rest hhead
  obtain ⟨hatom, harrow⟩ := hhead
  obtain ⟨front, rfl, hfront⟩ := (movable_blankAtom _).exists_front hatom
  obtain ⟨back, rfl, hback⟩ := Blank.moves_arrow harrow
  refine ⟨front ++ back, by simp, fun other => ?_⟩
  rw [List.append_assoc]
  exact .intro (hfront (back ++ other)) (hback other)

/-- A head counts as one only with its arrow, so it is given back whole where the arrow is
missing. -/
theorem sound_head : Sound (do let head ← atom; arrow; return head) Head := by
  have harrow : ∀ head : SourceAtom, Sound (do arrow; return head) (Yields Arrow head) :=
    fun head => sound_arrow.map fun harrow => ⟨rfl, harrow⟩
  have hopen : ∀ head : SourceAtom, Completable (Yields Arrow head) [] := fun head =>
    completable_arrow.mono (fun _ => head) fun harrow => ⟨rfl, harrow⟩
  apply (sound_atom.bind movable_blankAtom harrow hopen).mono
  intro value text rest hseq
  obtain ⟨hatom, rfl, harrow⟩ := hseq
  exact .intro hatom harrow

/-- A head that is read stands before its body, and the goals of a query without one are all
there is. -/
theorem sound_goals : Sound goals Query := by
  have hperiod : ∀ atoms : List SourceAtom, Sound (do let _ ← attempt (token '.'); return atoms)
      (Yields Period atoms) := fun atoms => (Sound.token '.').attempt.map fun htoken => by
    cases htoken with
    | none => exact ⟨rfl, .absent⟩
    | some htoken => exact ⟨rfl, .present htoken⟩
  have hopen : ∀ atoms : List SourceAtom, Completable (Yields Period atoms) [] :=
    fun atoms => ⟨[], atoms, fun _ => ⟨rfl, .absent⟩⟩
  have hbody := fun head : Option SourceAtom => sound_atoms.bind movable_atoms
    (fun body => hperiod (head.toList ++ body)) fun body => hopen (head.toList ++ body)
  apply (sound_head.attempt.bind movable_head.optional hbody fun head =>
    completable_atoms.seq fun body => hopen (head.toList ++ body)).mono
  intro value text rest hseq
  obtain ⟨hhead, hbody, rfl, hperiod⟩ := hseq
  cases hhead with
  | none => exact .goals hbody hperiod
  | some hhead =>
      obtain ⟨hatom, harrow⟩ := hhead
      exact .rule hatom harrow hbody hperiod

theorem sound_clauses : Sound (many clause) (Many Written.Clause) :=
  sound_clause.many movable_clause

end Posl.Grammar
