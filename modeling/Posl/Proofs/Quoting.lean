import Posl.Proofs.RoundTrip

/-!
# Constants with and without quotes

A constant is written bare exactly where its bare text reads back as that constant, so
quotes are neither left out where they are needed nor put where they are not.  What is
quoted is read back, whatever follows the closing quote.
-/

namespace Posl

open Written

/-! ## Numerals -/

namespace Lexeme

theorem all_ne_point_of_isDigits {digits : List Char} (hdigits : isDigits digits) :
    digits.all (· != '.') := by
  obtain ⟨-, hall⟩ := Grammar.isDigits_iff.mp hdigits
  rw [List.all_eq_true] at hall ⊢
  intro c hc
  rw [bne_iff_ne]
  rintro rfl
  exact absurd (hall _ hc) (by decide)

theorem isUnsignedNumeral_of_isDigits {digits : List Char} (hdigits : isDigits digits) :
    isUnsignedNumeral digits := by
  obtain ⟨-, hdrop⟩ := @Grammar.takeWhile_append_of_head _ digits []
    (all_ne_point_of_isDigits hdigits) (by simp)
  rw [List.append_nil] at hdrop
  rw [isUnsignedNumeral, hdrop]
  exact hdigits

theorem isUnsignedNumeral_of_fraction {whole fraction : List Char} (hwhole : isDigits whole)
    (hfraction : isDigits fraction) : isUnsignedNumeral (whole ++ '.' :: fraction) := by
  obtain ⟨htake, hdrop⟩ := @Grammar.takeWhile_append_of_head _ whole ('.' :: fraction)
    (all_ne_point_of_isDigits hwhole) (by simp)
  rw [isUnsignedNumeral, htake, hdrop, Bool.and_eq_true]
  exact ⟨hwhole, hfraction⟩

/-- A sign is taken off only where digits follow, so it makes no difference there. -/
theorem isNumeral_append_of_sign {sign text : List Char} (hsign : sign = [] ∨ sign = ['-'])
    (htext : ∀ c ∈ text.head?, c ≠ '-') : isNumeral (sign ++ text) = isUnsignedNumeral text := by
  rcases hsign with rfl | rfl
  · rw [List.nil_append, isNumeral]
    rintro rest rfl
    exact htext '-' rfl rfl
  · rfl

/-- What the grammar takes for a numeral is left without quotes by the printer. -/
theorem isNumeral_of_written {text : List Char} (htext : IsNumeral text) : isNumeral text := by
  cases htext with
  | @integer sign whole hsign hwhole =>
      have hhead := @Grammar.head_ne_of_isDigits whole [] hwhole
      rw [List.append_nil] at hhead
      rw [isNumeral_append_of_sign hsign hhead]
      exact isUnsignedNumeral_of_isDigits hwhole
  | decimal hsign hwhole hfraction =>
      rw [List.append_assoc, isNumeral_append_of_sign hsign (Grammar.head_ne_of_isDigits hwhole)]
      exact isUnsignedNumeral_of_fraction hwhole hfraction

end Lexeme

/-! ## Reading a constant back -/

/-- A quoted text is longer than what it stands for, by its closing quote at least. -/
theorem Written.QuotedBody.length_lt {body text rest : List Char}
    (hbody : QuotedBody body text rest) : body.length < text.length := by
  induction hbody with
  | close => exact Nat.zero_lt_succ _
  | escaped _ ih | plain _ _ _ ih =>
      simp only [List.length_cons]
      omega

namespace Grammar

variable (name : String)

/-- Written bare or in quotes, a constant is read as what it is. -/
theorem term_constant : term (Lexeme.constant name.toList) = .ok (.const name none) [] := by
  have htype : Posl.Term.IsType none := by
    rintro _ ⟨⟩
  have hwritten := @Written.constant name none htype []
  rw [Posl.Term.typeSuffix, List.append_nil, List.append_nil] at hwritten
  exact term_of_term (.intro .done hwritten) (.of_blank .done)

theorem term_of_isPlain (hplain : Lexeme.isPlain name.toList) :
    term name.toList = .ok (.const name none) [] := by
  have hread := term_constant name
  rwa [Lexeme.constant, if_pos hplain] at hread

/-- A text in quotes is longer than what it stands for, so a text that is read as itself
is an identifier or a numeral. -/
theorem isPlain_of_term (hread : term name.toList = .ok (.const name none) []) :
    Lexeme.isPlain name.toList := by
  obtain ⟨hblank, hterm⟩ := sound_term.of_ok hread
  rw [Lexeme.isPlain, Bool.or_eq_true, Bool.and_eq_true, bne_iff_ne]
  cases hterm with
  | number hname htype =>
      cases htype with
      | none => exact .inr (Lexeme.isNumeral_of_written hname.1)
  | string hname htype =>
      cases htype with
      | none =>
          obtain ⟨body, rfl, hbody⟩ := hname
          have hinner := hbody.length_lt
          have houter := hblank.length_le
          rw [List.length_cons] at houter
          omega
  | individual hname hne htype =>
      cases htype with
      | none =>
          refine .inl ⟨hname.1, fun hunderscore => hne ?_⟩
          exact String.toList_inj.mp hunderscore

theorem isPlain_iff_term :
    Lexeme.isPlain name.toList ↔ term name.toList = .ok (.const name none) [] :=
  ⟨term_of_isPlain name, isPlain_of_term name⟩

theorem quoted_quote (rest : List Char) :
    quoted (Lexeme.quote name.toList ++ rest) = .ok name rest :=
  quoted_of_quoted (Written.quoted_quote name rest)

end Grammar

namespace Lexeme

/-- A constant stands bare where the reader of terms would take it for itself, and
nowhere else.  Both forms are read back, and the quoted one to its closing quote. -/
theorem quoted_where_needed (name : String) :
    (isPlain name.toList ↔ Grammar.term name.toList = .ok (.const name none) []) ∧
    (constant name.toList = name.toList ↔
      Grammar.term name.toList = .ok (.const name none) []) ∧
    Grammar.term (constant name.toList) = .ok (.const name none) [] ∧
    ∀ rest, Grammar.quoted (quote name.toList ++ rest) = .ok name rest := by
  have hread := Grammar.term_constant name
  refine ⟨Grammar.isPlain_iff_term name, ⟨?_, ?_⟩, hread, Grammar.quoted_quote name⟩
  · intro hbare
    rwa [hbare] at hread
  · intro hbare
    rw [constant, if_pos (Grammar.isPlain_of_term name hbare)]

/-- Texts that are nearly words, and the words they are near to. -/
example : ["_", "-", "5.", "1.2.3", "--5", ""].all (!isPlain ·.toList) ∧
    ["_5", "-5", "5.0", "a-b"].all (isPlain ·.toList) := by decide

end Lexeme

end Posl
