import Posl.Proofs.Grammar.Written
import Posl.Source.Grammar

/-!
# Skipping blank space

The reader of blank space takes all of it, and no other way of dividing blank
space from what follows leads anywhere else.  A piece of blank space stays one
when the text after it is exchanged, unless it ends inside a comment.
-/

namespace Posl.Written

open Grammar

/-! ## Agreement with the form -/

/-- A comment is one only where its line ends, so the reader looks for the end before it
takes the percent sign for a comment's. -/
theorem endsLine_append {body text : List Char}
    (hbody : ∀ c ∈ body, c ≠ '\r' ∧ c ≠ '\n') (hend : LineEnd text) :
    endsLine (body ++ text) = true := by
  induction body with
  | nil => cases hend <;> simp [endsLine]
  | cons c body ih =>
      have hc := hbody c (by simp)
      have hrest := ih fun c hmem => hbody c (by simp [hmem])
      simpa [endsLine, hc] using hrest

/-- What follows a comment is skipped as if no comment stood before it. -/
theorem skipBlankFrom_comment {body text : List Char}
    (hbody : ∀ c ∈ body, c ≠ '\r' ∧ c ≠ '\n') (hend : LineEnd text) :
    skipBlankFrom true (body ++ text) = skipBlank text := by
  induction body with
  | nil => cases hend <;> simp [skipBlankFrom, skipBlank]
  | cons c body ih =>
      have hc := hbody c (by simp)
      have hrest := ih fun c hmem => hbody c (by simp [hmem])
      simpa [skipBlankFrom, hc] using hrest

theorem skipBlank_of_space {c : Char} (hc : c ∈ [' ', '\t', '\r', '\n']) (text : List Char) :
    skipBlank (c :: text) = skipBlank text := by
  simp only [List.mem_cons, List.not_mem_nil, or_false] at hc
  rcases hc with rfl | rfl | rfl | rfl <;> simp [skipBlank, skipBlankFrom]

theorem skipBlank_of_percent {text : List Char} (hends : endsLine text = true) :
    skipBlank ('%' :: text) = skipBlankFrom true text := by
  simp [skipBlank, skipBlankFrom, hends]

/-- However blank space is divided from a text, skipping on leads to the same
place. -/
theorem Blank.skipBlank_eq {text rest : List Char} (hblank : Blank text rest) :
    skipBlank text = skipBlank rest := by
  induction hblank with
  | done => rfl
  | space hc _ ih => rw [skipBlank_of_space hc, ih]
  | comment hbody hend _ ih =>
      rw [skipBlank_of_percent (endsLine_append hbody hend), skipBlankFrom_comment hbody hend, ih]

/-- Skipping takes blank space off a text.  Inside a comment that ends, it takes
the rest of the comment first. -/
theorem skipBlank_decomposition (text : List Char) :
    Blank text (skipBlank text) ∧
      (endsLine text = true → ∃ body rest, text = body ++ rest ∧
        (∀ c ∈ body, c ≠ '\r' ∧ c ≠ '\n') ∧ LineEnd rest ∧
        Blank rest (skipBlankFrom true text)) := by
  induction text with
  | nil => exact ⟨.done, fun _ => ⟨[], [], rfl, by simp, .nil, .done⟩⟩
  | cons c text ih =>
      obtain ⟨ihblank, ihcomment⟩ := ih
      constructor
      · by_cases hspace : c ∈ [' ', '\t', '\r', '\n']
        · rw [skipBlank_of_space hspace]
          exact .space hspace ihblank
        by_cases hcomment : c = '%' ∧ endsLine text = true
        · obtain ⟨rfl, hends⟩ := hcomment
          obtain ⟨body, rest, rfl, hbody, hend, hblank⟩ := ihcomment hends
          rw [skipBlank_of_percent hends]
          exact .comment hbody hend hblank
        · have hskip : skipBlank (c :: text) = c :: text := by
            simp only [List.mem_cons, List.not_mem_nil, or_false, not_or] at hspace
            simp [skipBlank, skipBlankFrom, hspace, hcomment]
          rw [hskip]
          exact .done
      · intro hends
        by_cases hfeed : c = '\n'
        · subst c
          exact ⟨[], _, rfl, by simp, .lineFeed, .space (by simp) (by
            simpa [skipBlankFrom, skipBlank] using ihblank)⟩
        by_cases hreturn : c = '\r'
        · subst c
          obtain ⟨rest, rfl⟩ : ∃ rest, text = '\n' :: rest := by
            cases text <;> simp_all [endsLine]
          exact ⟨[], _, rfl, by simp, .carriageReturn, .space (by simp) (by
            simpa [skipBlankFrom, skipBlank] using ihblank)⟩
        · have hinside : endsLine text = true := by
            simpa [endsLine, hfeed, hreturn] using hends
          obtain ⟨body, rest, rfl, hbody, hend, hblank⟩ := ihcomment hinside
          refine ⟨c :: body, rest, rfl, ?_, hend, ?_⟩
          · simpa [hfeed, hreturn] using hbody
          · simpa [skipBlankFrom, hfeed, hreturn] using hblank

theorem blank_skipBlank (text : List Char) : Blank text (skipBlank text) :=
  (skipBlank_decomposition text).1

theorem blank_nil_iff {text : List Char} : Blank text [] ↔ skipBlank text = [] := by
  constructor
  · intro hblank
    exact hblank.skipBlank_eq
  · intro hskip
    have hblank := blank_skipBlank text
    rwa [hskip] at hblank

theorem Blank.trans {text next rest : List Char} (hfirst : Blank text next)
    (hsecond : Blank next rest) : Blank text rest := by
  induction hfirst with
  | done => exact hsecond
  | space hc _ ih => exact .space hc (ih hsecond)
  | comment hbody hend _ ih => exact .comment hbody hend (ih hsecond)

theorem Blank.length_le {text rest : List Char} (hblank : Blank text rest) :
    rest.length ≤ text.length := by
  induction hblank with
  | done => exact Nat.le_refl _
  | space _ _ ih => exact Nat.le_succ_of_le ih
  | comment _ _ _ ih =>
      simp only [List.length_cons, List.length_append]
      omega

/-! ## Characters that start a token -/

/-- A character that neither is blank nor starts a comment. -/
abbrev Solid (c : Char) : Prop := c ∉ [' ', '\t', '\r', '\n', '%']

theorem skipBlank_of_solid {c : Char} {rest : List Char} (hc : Solid c) :
    skipBlank (c :: rest) = c :: rest := by
  simp only [Solid, List.mem_cons, List.not_mem_nil, or_false, not_or] at hc
  simp [skipBlank, skipBlankFrom, hc]

/-- Blank space up to a token is all that is skipped before the token, however it is divided
into blanks and comments. -/
theorem Blank.skipBlank_solid {c : Char} {text rest : List Char}
    (hblank : Blank text (c :: rest)) (hc : Solid c) : skipBlank text = c :: rest := by
  rw [hblank.skipBlank_eq, skipBlank_of_solid hc]

/-- No blank space stands before a character that starts a token. -/
theorem Blank.eq_of_solid {c : Char} {text rest : List Char}
    (hblank : Blank (c :: text) rest) (hc : Solid c) : rest = c :: text := by
  cases hblank with
  | done => rfl
  | space hspace _ => grind
  | comment _ _ _ => grind

/-- Skipping stops at a character that is no blank, inside a comment and outside. -/
theorem not_space_of_skipBlankFrom {inComment : Bool} {text rest : List Char} {c : Char}
    (hskip : skipBlankFrom inComment text = c :: rest) : c ∉ [' ', '\t', '\r', '\n'] := by
  induction text generalizing inComment with
  | nil => simp [skipBlankFrom] at hskip
  | cons first text ih =>
      simp only [skipBlankFrom] at hskip
      split at hskip
      · exact ih hskip
      split at hskip
      · exact ih hskip
      split at hskip
      · exact ih hskip
      split at hskip
      · exact ih hskip
      · simp_all

/-! ## Exchanging the text that follows -/

/-- Where a line end comes after a piece of blank space, it still does with
another text behind the piece. -/
theorem LineEnd.exchange {front rest other : List Char} (hend : LineEnd (front ++ rest))
    (hrest : ∀ c ∈ rest.head?, c ≠ '\r' ∧ c ≠ '\n') (hother : rest ≠ [] ∨ LineEnd other) :
    LineEnd (front ++ other) := by
  match front with
  | [] =>
      cases hend with
      | nil => simpa using hother
      | lineFeed => simp at hrest
      | carriageReturn => simp at hrest
  | [c] =>
      cases hend with
      | lineFeed => exact .lineFeed
      | carriageReturn => simp at hrest
  | c :: d :: front =>
      cases hend with
      | lineFeed => exact .lineFeed
      | carriageReturn => exact .carriageReturn

/-- Blank space before a text is blank space before another one, as long as it
does not end inside a comment or the other text ends that comment. -/
theorem Blank.exists_front {text rest : List Char} (hblank : Blank text rest)
    (hrest : ∀ c ∈ rest.head?, c ≠ '\r' ∧ c ≠ '\n') :
    ∃ front, text = front ++ rest ∧
      ∀ other, rest ≠ [] ∨ LineEnd other → Blank (front ++ other) other := by
  induction hblank with
  | done => exact ⟨[], rfl, fun _ _ => .done⟩
  | @space c text rest hc _ ih =>
      obtain ⟨front, rfl, hfront⟩ := ih hrest
      exact ⟨c :: front, rfl, fun other hother => .space hc (hfront other hother)⟩
  | @comment body text rest hbody hend _ ih =>
      obtain ⟨front, rfl, hfront⟩ := ih hrest
      refine ⟨'%' :: (body ++ front), by simp, fun other hother => ?_⟩
      have hcomment := Blank.comment hbody (hend.exchange hrest hother) (hfront other hother)
      simpa using hcomment

/-- The blank space that skipping takes, before any text that starts on a new
line or takes the place of one that is not empty. -/
theorem skipBlank_exists_front (text : List Char) :
    ∃ front, text = front ++ skipBlank text ∧
      ∀ other, skipBlank text ≠ [] ∨ LineEnd other → Blank (front ++ other) other := by
  apply (blank_skipBlank text).exists_front
  intro c hc
  obtain ⟨rest, hskip⟩ : ∃ rest, skipBlank text = c :: rest := by
    cases hskip : skipBlank text <;> simp_all
  have hspace := not_space_of_skipBlankFrom hskip
  grind

/-- Blank space before a token ends outside of comments, so it stays blank space whatever
takes the token's place. -/
theorem Blank.exists_front_of_solid {c : Char} {text rest : List Char}
    (hblank : Blank text (c :: rest)) (hc : Solid c) :
    ∃ front, text = front ++ c :: rest ∧ ∀ other, Blank (front ++ other) other := by
  obtain ⟨front, htext, hfront⟩ := hblank.exists_front (by grind)
  exact ⟨front, htext, fun other => hfront other (.inl (by simp))⟩

/-! ## What may come next -/

/-- The next token, if there is one, starts with one of the given
characters. -/
def Follow (stops text : List Char) : Prop :=
  ∀ c rest, skipBlank text = c :: rest → c ∈ stops

theorem Follow.mono {stops more text : List Char} (hfollow : Follow stops text)
    (hsubset : stops ⊆ more) : Follow more text :=
  fun c rest hskip => hsubset (hfollow c rest hskip)

theorem Follow.of_token {c : Char} {stops text rest : List Char} (htoken : Token c text rest)
    (hmem : c ∈ stops) (hc : Solid c) : Follow stops text := by
  intro next tail hskip
  rw [htoken.skipBlank_solid hc] at hskip
  simp_all

theorem Follow.of_arrow {stops text rest : List Char} (harrow : Arrow text rest)
    (hmem : ':' ∈ stops) : Follow stops text :=
  .of_token harrow hmem (by decide)

/-- The first item of a series comes before a comma or the end of the series. -/
theorem Series.exists_first {α : Type} {item : Form α} {items : List α}
    {stops text rest : List Char} (hseries : Series item items text rest)
    (hfollow : Follow stops rest) :
    ∃ first next, Then Blank item first text next ∧ Follow (',' :: stops) next := by
  obtain ⟨hfirst, hothers⟩ := hseries
  refine ⟨_, _, hfirst, ?_⟩
  cases hothers with
  | nil => exact hfollow.mono (by simp)
  | cons hsecond _ =>
      obtain ⟨hcomma, -⟩ := hsecond
      exact .of_token hcomma (by simp) (by decide)

/-- At the end of a text there is no next token, so any condition on it holds. -/
theorem Follow.of_blank {stops text : List Char} (hblank : Blank text []) : Follow stops text := by
  intro c rest hskip
  rw [blank_nil_iff.mp hblank] at hskip
  simp at hskip

theorem Period.follow {text rest : List Char} (hperiod : Period text rest)
    (hend : Blank rest []) : Follow ['.'] text := by
  cases hperiod with
  | absent => exact .of_blank hend
  | present hperiod => exact .of_token hperiod (by simp) (by decide)

/-- A class of characters that holds no blank and no character that may come
next does not go on in the text. -/
theorem Follow.not_accepts {accepts : Char → Bool} {stops text : List Char}
    (hfollow : Follow stops text) (hstops : stops.all (!accepts ·))
    (hblank : [' ', '\t', '\r', '\n', '%'].all (!accepts ·)) :
    ∀ c ∈ text.head?, accepts c = false := by
  simp only [List.all_eq_true, Bool.not_eq_true'] at hstops hblank
  intro c hc
  by_cases hsolid : Solid c
  · cases text with
    | nil => simp at hc
    | cons first text =>
        obtain rfl : first = c := by simpa using hc
        exact hstops first (hfollow first text (skipBlank_of_solid hsolid))
  · exact hblank c (Decidable.not_not.mp hsolid)

end Posl.Written
