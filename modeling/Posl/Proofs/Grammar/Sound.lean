import Posl.Proofs.Grammar.Movable

/-!
# Sound readers

A sound reader takes writings of its form off a text and nothing else.  Where it
stops in an error, it has passed nothing that is wrong in itself: the passed
piece can be continued to a writing of the form.  Every way of combining readers
keeps this up.
-/

namespace Posl

open Written

variable {α β : Type}

namespace Written

/-- A piece of text that some continuation makes a writing of the form, whatever
comes after that. -/
def Completable (form : Form α) (front : List Char) : Prop :=
  ∃ more value, ∀ rest, form value (front ++ more ++ rest) rest

/-- A rest of a text with nothing wrong before it. -/
def Stuck (form : Form α) (text rest : List Char) : Prop :=
  ∃ front, text = front ++ rest ∧ Completable form front

/-- What can be continued to a writing of one form can be continued to a writing of any form
that takes these writings in. -/
theorem Completable.mono {form : Form α} {other : Form β} {front : List Char} (f : α → β)
    (hform : ∀ {value text rest}, form value text rest → other (f value) text rest)
    (hcomplete : Completable form front) : Completable other front := by
  obtain ⟨more, value, hmore⟩ := hcomplete
  exact ⟨more, f value, fun rest => hform (hmore rest)⟩

theorem Stuck.mono {form : Form α} {other : Form β} {text rest : List Char} (f : α → β)
    (hform : ∀ {value text rest}, form value text rest → other (f value) text rest)
    (hstuck : Stuck form text rest) : Stuck other text rest := by
  obtain ⟨front, htext, hcomplete⟩ := hstuck
  exact ⟨front, htext, hcomplete.mono f hform⟩

/-- An error before anything is passed needs only that some text has the form. -/
theorem Stuck.of_completable {form : Form α} (hcomplete : Completable form []) (text : List Char) :
    Stuck form text text :=
  ⟨[], rfl, hcomplete⟩

/-- One form after another, where the second may depend on the value of the
first. -/
inductive Seq (form : Form α) (forms : α → Form β) : Form β
  | intro {first second text next rest} : form first text next → forms first second next rest →
      Seq form forms second text rest

/-- The second form may follow any value of the first, so that it is enough if it has a
writing at all after each of them. -/
theorem Completable.seq {form : Form α} {forms : α → Form β} {front : List Char}
    (hcomplete : Completable form front) (hopen : ∀ value, Completable (forms value) []) :
    Completable (Seq form forms) front := by
  obtain ⟨more, value, hmore⟩ := hcomplete
  obtain ⟨back, last, hback⟩ := hopen value
  refine ⟨more ++ back, last, fun rest => ?_⟩
  have hwhole := Seq.intro (hmore (back ++ rest)) (hback rest)
  simpa using hwhole

theorem completable_optional (form : Form α) : Completable (Optional form) [] :=
  ⟨[], none, fun _ => .none⟩

theorem completable_token (c : Char) : Completable (fun _ : Unit => Token c) [] :=
  ⟨[c], (), fun _ => .done⟩

theorem completable_items {form : Form α} : Completable (Items form) [] :=
  ⟨[], [], fun _ => .none⟩

def Exactly (c : Char) : Form Char := fun found text rest => found = c ∧ text = c :: rest

/-- A fixed value where something without a value of its own stands. -/
def Yields (lead : List Char → List Char → Prop) (value : α) : Form α :=
  fun found text rest => found = value ∧ lead text rest

/-- A list that goes on from a first value as the form has it. -/
def Onward (form : Form (List α)) (first : α) : Form (List α) :=
  fun values text rest => ∃ others, values = first :: others ∧ form others text rest

/-- What is left of a repetition after an attempt at one more value. -/
def Repeated (form : Form α) : Option α → Form (List α)
  | none => Yields Eq []
  | some first => Onward (Many form) first

/-- A form between parentheses. -/
inductive Parenthesized (form : Form α) : Form α
  | intro {value text inner close rest} : Token '(' text inner → form value inner close →
      Token ')' close rest → Parenthesized form value text rest

/-- What stands in parentheses ends in a token, so it is a movable piece whatever stands in
them. -/
theorem Movable.parenthesized {form : Form α} (hmove : Movable form) :
    Movable (Parenthesized form) := by
  intro value
  constructor
  intro text rest hform
  obtain ⟨hleft, hvalue, hright⟩ := hform
  obtain ⟨left, rfl, hmovedleft⟩ := Blank.moves_token hleft (by decide)
  obtain ⟨inner, rfl, hmovedvalue⟩ := (hmove value).exists_front hvalue
  obtain ⟨right, rfl, hmovedright⟩ := Blank.moves_token hright (by decide)
  refine ⟨left ++ inner ++ right, by simp, fun other => ?_⟩
  have hmoved := Parenthesized.intro (hmovedleft _) (hmovedvalue _) (hmovedright other)
  simpa using hmoved

end Written

/-- The outcome of a reader that keeps to a form. -/
def Outcome.Meets (form : Form α) (text : List Char) : Outcome α → Prop
  | .ok value rest => form value text rest
  | .mismatch rest | .failure rest => Stuck form text rest

namespace Reader

instance : LawfulMonad Reader := by
  refine LawfulMonad.mk' Reader ?_ ?_ ?_
  · intro α reader
    funext text
    change (reader text).bind _ = reader text
    cases reader text <;> rfl
  · intro α β value next
    rfl
  · intro α β γ reader next after
    funext text
    simp only [bind_apply]
    cases reader text <;> rfl

/-- A reader whose value is changed stops where it stopped before, in an error or not. -/
@[simp]
theorem map_apply (f : α → β) (reader : Reader α) (text : List Char) :
    (f <$> reader) text = (reader text).map f := by
  change (reader text).bind _ = _
  cases reader text <;> rfl

def Sound (reader : Reader α) (form : Form α) : Prop := ∀ text, (reader text).Meets form text

namespace Sound

variable {reader : Reader α} {form : Form α}

theorem of_ok {value : α} {text rest : List Char} (hsound : Sound reader form)
    (hread : reader text = .ok value rest) : form value text rest := by
  have hmeets := hsound text
  rwa [hread] at hmeets

theorem of_mismatch {text rest : List Char} (hsound : Sound reader form)
    (hread : reader text = .mismatch rest) : Stuck form text rest := by
  have hmeets := hsound text
  rwa [hread] at hmeets

theorem of_failure {text rest : List Char} (hsound : Sound reader form)
    (hread : reader text = .failure rest) : Stuck form text rest := by
  have hmeets := hsound text
  rwa [hread] at hmeets

/-! ## Sequences -/

theorem map {other : Form β} {f : α → β} (hsound : Sound reader form)
    (hform : ∀ {value text rest}, form value text rest → other (f value) text rest) :
    Sound (do return f (← reader)) other := by
  intro text
  rw [bind_apply]
  cases hread : reader text with
  | ok value rest => exact hform (hsound.of_ok hread)
  | mismatch rest => exact (hsound.of_mismatch hread).mono f hform
  | failure rest => exact (hsound.of_failure hread).mono f hform

theorem mono {other : Form α} (hsound : Sound reader form)
    (hform : ∀ {value text rest}, form value text rest → other value text rest) :
    Sound reader other := by
  intro text
  cases hread : reader text with
  | ok value rest => exact hform (hsound.of_ok hread)
  | mismatch rest => exact (hsound.of_mismatch hread).mono id hform
  | failure rest => exact (hsound.of_failure hread).mono id hform

/-- An error in the second reader lies behind a writing of the first form, and an
error in the first one can be mended so that the second can start. -/
theorem bind {next : α → Reader β} {forms : α → Form β} (hsound : Sound reader form)
    (hmove : Movable form) (hnext : ∀ value, Sound (next value) (forms value))
    (hopen : ∀ value, Completable (forms value) []) :
    Sound (reader >>= next) (Seq form forms) := by
  have hfirst : ∀ {text rest}, Stuck form text rest → Stuck (Seq form forms) text rest := by
    intro text rest hstuck
    obtain ⟨front, rfl, hcomplete⟩ := hstuck
    exact ⟨front, rfl, hcomplete.seq hopen⟩
  have hsecond : ∀ {value text middle rest}, form value text middle →
      Stuck (forms value) middle rest → Stuck (Seq form forms) text rest := by
    intro value text middle rest hform hstuck
    obtain ⟨lead, rfl, hlead⟩ := (hmove value).exists_front hform
    obtain ⟨front, rfl, more, last, hmore⟩ := hstuck
    refine ⟨lead ++ front, by simp, more, last, fun rest => ?_⟩
    have hwhole := Seq.intro (hlead (front ++ more ++ rest)) (hmore rest)
    simpa using hwhole
  intro text
  rw [bind_apply]
  cases hread : reader text with
  | mismatch rest => exact hfirst (hsound.of_mismatch hread)
  | failure rest => exact hfirst (hsound.of_failure hread)
  | ok value middle =>
      have hform := hsound.of_ok hread
      change Outcome.Meets _ _ (next value middle)
      cases hrest : next value middle with
      | ok last rest => exact .intro hform ((hnext value).of_ok hrest)
      | mismatch rest => exact hsecond hform ((hnext value).of_mismatch hrest)
      | failure rest => exact hsecond hform ((hnext value).of_failure hrest)

/-! ## Choices -/

/-- A choice is sound where both readers are sound for one form: the second starts where the
first has passed nothing. -/
theorem orElse {other : Reader α} (hsound : Sound reader form) (hother : Sound other form) :
    Sound (Reader.orElse reader other) form := by
  intro text
  unfold Reader.orElse
  cases hread : reader text with
  | ok value rest => exact hsound.of_ok hread
  | mismatch rest => exact hother text
  | failure rest => exact hsound.of_failure hread

/-- An attempt that mismatches stands for nothing, where it starts. -/
theorem attempt (hsound : Sound reader form) : Sound (Reader.attempt reader) (Optional form) := by
  intro text
  unfold Reader.attempt
  cases hread : reader text with
  | ok value rest => exact .some (hsound.of_ok hread)
  | mismatch rest => exact .none
  | failure rest => exact (hsound.of_failure hread).mono some .some

theorem commit (hsound : Sound reader form) : Sound (Reader.commit reader) form := by
  intro text
  unfold Reader.commit
  cases hread : reader text with
  | ok value rest => exact hsound.of_ok hread
  | mismatch rest => exact hsound.of_mismatch hread
  | failure rest => exact hsound.of_failure hread

/-! ## Blank space and tokens -/

/-- A comment that the text ends in is ended before anything is put behind
it. -/
theorem blankThen (hsound : Sound reader form) :
    Sound (do Grammar.blank; reader) (Then Blank form) := by
  intro text
  obtain ⟨lead, htext, hlead⟩ := skipBlank_exists_front text
  have hstuck : ∀ {rest}, Stuck form (Grammar.skipBlank text) rest →
      Stuck (Then Blank form) text rest := by
    intro rest hstuck
    obtain ⟨front, hfront, more, value, hmore⟩ := hstuck
    refine ⟨lead ++ front, by rw [htext, hfront, List.append_assoc], ?_⟩
    by_cases hend : Grammar.skipBlank text = []
    · obtain ⟨rfl, rfl⟩ : front = [] ∧ rest = [] := by simpa [hend] using hfront
      refine ⟨'\n' :: more, value, fun rest => ?_⟩
      have hblank := hlead ('\n' :: (more ++ rest)) (.inr .lineFeed)
      have hwhole : Then Blank form value (lead ++ '\n' :: (more ++ rest)) rest :=
        .intro (hblank.trans (.space (by simp) .done)) (hmore rest)
      simpa using hwhole
    · refine ⟨more, value, fun rest => ?_⟩
      have hwhole := Then.intro (hlead (front ++ more ++ rest) (.inl hend)) (hmore rest)
      simpa using hwhole
  change Outcome.Meets _ _ (reader (Grammar.skipBlank text))
  cases hread : reader (Grammar.skipBlank text) with
  | ok value rest => exact .intro (blank_skipBlank text) (hsound.of_ok hread)
  | mismatch rest => exact hstuck (hsound.of_mismatch hread)
  | failure rest => exact hstuck (hsound.of_failure hread)

theorem char (c : Char) : Sound (Reader.char c) (Exactly c) := by
  intro text
  cases text with
  | nil => exact .of_completable ⟨[c], c, fun _ => ⟨rfl, rfl⟩⟩ _
  | cons first text =>
      by_cases hfirst : first = c
      · simp [Reader.char, satisfy, hfirst, Outcome.Meets, Exactly]
      · simp only [Reader.char, satisfy, beq_iff_eq, hfirst, if_false]
        exact .of_completable ⟨[c], c, fun _ => ⟨rfl, rfl⟩⟩ _

theorem token (c : Char) : Sound (Grammar.token c) fun _ => Token c := by
  have hchar : Sound (do let _ ← Reader.char c) fun _ text rest => text = c :: rest :=
    (char c).map fun hform => hform.2
  apply hchar.blankThen.mono
  intro value text rest hthen
  obtain ⟨hblank, rfl⟩ := hthen
  exact hblank

theorem movable_token {c : Char} (hc : Solid c) : Movable fun _ : Unit => Token c :=
  fun _ => ⟨fun htoken => Blank.moves_token htoken hc⟩

/-- A form behind a token that opens it, such as an argument behind a comma: where the form
is missing, the token is not what is wrong. -/
theorem tokenThen {c : Char} (hsound : Sound reader form) (hopen : Completable form [])
    (hc : Solid c) : Sound (do Grammar.token c; reader) (Then (Token c) form) := by
  have hbind := (token c).bind (movable_token hc) (fun _ => hsound) (fun _ => hopen)
  apply hbind.mono
  intro value text rest hseq
  obtain ⟨htoken, hform⟩ := hseq
  exact .intro htoken hform

/-- Behind an open parenthesis the reader can only fail, but what it has passed
can still be closed. -/
theorem parenthesized (hsound : Sound reader form) (hmove : Movable form)
    (hopen : Completable form []) : Sound (Grammar.parenthesized reader) (Parenthesized form) := by
  have hclose : ∀ value : α, Sound (do Grammar.token ')'; return value)
      (Yields (Token ')') value) := fun value => (token ')').map fun htoken => ⟨rfl, htoken⟩
  have hcloseopen : ∀ value : α, Completable (Yields (Token ')') value) [] := fun value =>
    (completable_token ')').mono (fun _ => value) fun htoken => ⟨rfl, htoken⟩
  have hinner : Sound _ (Seq form (Yields (Token ')'))) := hsound.bind hmove hclose hcloseopen
  apply (hinner.commit.tokenThen (hopen.seq hcloseopen) (by decide)).mono
  intro value text rest hthen
  obtain ⟨hleft, hvalue, rfl, hright⟩ := hthen
  exact .intro hleft hvalue hright

/-! ## Repetitions -/

/-- The induction is on the rounds that are left.  A reader that has none left has read a
list as well, though maybe not all of it. -/
theorem manyUpTo (hsound : Sound reader form) (hmove : Movable form) (count : Nat) :
    Sound (Reader.manyUpTo reader count) (Many form) := by
  induction count with
  | zero => exact fun text => .nil
  | succ count ih =>
      have hnext : ∀ found, Sound (match found with
          | none => return []
          | some value => do return value :: (← Reader.manyUpTo reader count))
          (Repeated form found) := by
        intro found
        cases found with
        | none => exact fun text => ⟨rfl, rfl⟩
        | some value => exact ih.map fun hothers => ⟨_, rfl, hothers⟩
      have hopen : ∀ found, Completable (Repeated form found) [] := by
        intro found
        cases found with
        | none => exact ⟨[], [], fun _ => ⟨rfl, rfl⟩⟩
        | some value => exact ⟨[], [value], fun _ => ⟨[], rfl, .nil⟩⟩
      apply (hsound.attempt.bind hmove.optional hnext hopen).mono
      intro value text rest hseq
      obtain ⟨hfound, hothers⟩ := hseq
      cases hfound with
      | none =>
          obtain ⟨rfl, rfl⟩ := hothers
          exact .nil
      | some hform =>
          obtain ⟨others, rfl, hmany⟩ := hothers
          exact .cons hform hmany

theorem many (hsound : Sound reader form) (hmove : Movable form) :
    Sound (Reader.many reader) (Many form) :=
  fun text => hsound.manyUpTo hmove text.length text

/-- A list with commas between its items.  A comma that no item follows is left to what
comes behind the list. -/
theorem separated1 (hsound : Sound reader (Then Blank form)) (hstart : StartsSolid form)
    (hmove : Movable form) (hopen : Completable form []) :
    Sound (Reader.separated1 (Grammar.token ',') reader) (Series form) := by
  have hblank : Movable (Then Blank form) := fun value => (hmove value).blankThen hstart
  have hcomma : Movable (Then (Token ',') (Then Blank form)) := fun value =>
    (hblank value).tokenThen (by decide)
  have hitem : Completable (Then Blank form) [] :=
    hopen.mono id fun hform => .intro .done hform
  have hothers := (hsound.tokenThen hitem (by decide)).many hcomma
  have hnext : ∀ first : α, Sound _
      (Onward (Many (Then (Token ',') (Then Blank form))) first) := fun first =>
    hothers.map fun hmany => ⟨_, rfl, hmany⟩
  have hnextopen : ∀ first : α,
      Completable (Onward (Many (Then (Token ',') (Then Blank form))) first) [] := fun first =>
    ⟨[], [first], fun _ => ⟨[], rfl, .nil⟩⟩
  apply (hsound.bind hblank hnext hnextopen).mono
  intro value text rest hseq
  obtain ⟨hfirst, others, rfl, hmany⟩ := hseq
  exact .intro hfirst hmany

/-- A list that may be empty: where its first item mismatches there is none. -/
theorem separated (hsound : Sound reader (Then Blank form)) (hstart : StartsSolid form)
    (hmove : Movable form) (hopen : Completable form []) :
    Sound (Reader.separated (Grammar.token ',') reader) (Items form) := by
  apply (hsound.separated1 hstart hmove hopen).attempt.map
  intro value text rest hseries
  cases hseries with
  | none => exact .none
  | some hitems => exact .some hitems

end Sound

end Reader

end Posl
