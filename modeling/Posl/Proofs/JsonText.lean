import Posl.Json.Read
import Posl.Proofs.Arithmetic
import Posl.Proofs.Grammar.Complete
import Posl.Proofs.JsonForms

/-!
# JSON as text

The text of a value is read as the value, if no object has a key twice.  It has no
control characters, whatever its strings hold, so that it stays on one line.
-/

namespace Posl.Json

open Reader Written
open Grammar (Accepts attempt_of_ok attempt_of_mismatch orElse_of_ok
  orElse_of_mismatch takeWhile_append_of_head takeWhile1_of_run takeWhile1_of_head char_of_head
  many_of_many)

variable {α β : Type}

/-! ## Steps of a reader -/

theorem bind_of_ok {reader : Reader α} {text rest : List Char} {value : α}
    (hread : reader text = .ok value rest) (next : α → Reader β) :
    (reader >>= next) text = next value rest := by
  rw [bind_apply, hread, Outcome.bind]

theorem bind_of_mismatch {reader : Reader α} {text rest : List Char}
    (hread : reader text = .mismatch rest) (next : α → Reader β) :
    (reader >>= next) text = .mismatch rest := by
  rw [bind_apply, hread, Outcome.bind]

theorem satisfy_of_head {accepts : Char → Bool} {text : List Char}
    (htext : ∀ c ∈ text.head?, accepts c = false) : satisfy accepts text = .mismatch text := by
  cases text with
  | nil => rfl
  | cons c text => simp [satisfy, htext c rfl]

/-! ## Values that their text tells -/

/-- Values whose text tells all about them: no object has a key twice, and no number is given
by a text of its own. -/
inductive HasDistinctKeys : Json → Prop
  | null : HasDistinctKeys .null
  | bool {value} : HasDistinctKeys (.bool value)
  | integer {value} : HasDistinctKeys (.integer value)
  | string {value} : HasDistinctKeys (.string value)
  | array {items} : (∀ item ∈ items, HasDistinctKeys item) → HasDistinctKeys (.array items)
  | object {fields} : (fields.map (·.1)).Nodup →
      (∀ field ∈ fields, HasDistinctKeys field.2) → HasDistinctKeys (.object fields)

/-- A format whose layouts have no key twice writes values that their text tells. -/
theorem IsLaidOut.hasDistinctKeys {layouts : List (List String)} {json : Json}
    (hjson : json.IsLaidOut layouts) (hlayouts : ∀ keys ∈ layouts, keys.Nodup) :
    json.HasDistinctKeys := by
  induction hjson with
  | null => exact .null
  | integer => exact .integer
  | string => exact .string
  | array _ ih => exact .array ih
  | object hkeys _ ih => exact .object (hlayouts _ hkeys) ih

theorem charsOfItems_eq_map (items : List Json) : charsOfItems items = items.map chars := by
  induction items with
  | nil => rfl
  | cons item items ih => rw [charsOfItems, ih, List.map_cons]

def fieldChars (field : String × Json) : List Char := stringChars field.1 ++ ':' :: field.2.chars

theorem charsOfFields_eq_map (fields : List (String × Json)) :
    charsOfFields fields = fields.map fieldChars := by
  induction fields with
  | nil => rfl
  | cons field fields ih => rw [charsOfFields, ih, List.map_cons, fieldChars]

/-! ## What stands behind a value -/

/-- The end of the text, of an item, or of the array or object around it. -/
def Closes (rest : List Char) : Prop := ∀ c ∈ rest.head?, c ∈ [',', ']', '}']

theorem closes_cons {c : Char} (hc : c ∈ [',', ']', '}']) (rest : List Char) :
    Closes (c :: rest) := by
  simpa [Closes] using hc

/-- What may stand behind a value goes on with no value that could be read. -/
theorem Closes.not_accepts {rest : List Char} (hrest : Closes rest) {accepts : Char → Bool}
    (hstops : [',', ']', '}'].all (!accepts ·)) : ∀ c ∈ rest.head?, accepts c = false := by
  intro c hc
  have hall := List.all_eq_true.mp hstops c (hrest c hc)
  simpa using hall

theorem blank_of_head {text : List Char} (htext : ∀ c ∈ text.head?, isSpace c = false) :
    blank text = .ok () text := by
  obtain ⟨-, hdrop⟩ := @takeWhile_append_of_head isSpace [] text rfl htext
  simp only [blank, bind_apply, takeWhile, Outcome.bind, pure_apply]
  rw [List.nil_append] at hdrop
  rw [hdrop]

/-- The writer puts no blank space in, so none is skipped behind a value. -/
theorem Closes.blank_eq {rest : List Char} (hrest : Closes rest) : blank rest = .ok () rest :=
  blank_of_head (hrest.not_accepts (by decide))

/-! ## Values one after the other -/

/-- What is written for the values that are sound, before any rest of the text. -/
def Writing (sound : α → Prop) (write : α → List Char) : Form α := fun value text rest =>
  sound value ∧ text = write value ++ rest

section Writing

variable {sound : α → Prop} {write : α → List Char} {reader : Reader α} {bound : Nat}
  {values : List α}

theorem many_writing (hsound : ∀ value ∈ values, sound value) (rest : List Char) :
    Many (Writing sound write) values (values.flatMap write ++ rest) rest := by
  induction values with
  | nil => exact .nil
  | cons first others ih =>
      obtain ⟨hfirst, hothers⟩ := List.forall_mem_cons.mp hsound
      exact .cons ⟨hfirst, by simp⟩ (ih hothers)

theorem many_of_writing {follow : List Char → Prop}
    (haccepts : Accepts bound reader (Writing sound write) follow) (hne : ∀ value, write value ≠ [])
    (hstart : ∀ value rest, follow (write value ++ rest)) (hsound : ∀ value ∈ values, sound value)
    {rest stop : List Char} (hbound : (values.flatMap write ++ rest).length ≤ bound)
    (hfollow : follow rest) (hstop : reader rest = .mismatch stop) :
    many reader (values.flatMap write ++ rest) = .ok values rest := by
  have hlength : ∀ {value text rest},
      Writing sound write value text rest → rest.length < text.length := by
    rintro value _ rest ⟨-, rfl⟩
    have hpos := List.length_pos_iff.mpr (hne value)
    rw [List.length_append]
    omega
  have hfollows : ∀ {value text rest}, Writing sound write value text rest → follow text := by
    rintro value _ rest ⟨-, rfl⟩
    exact hstart value rest
  exact many_of_many haccepts hlength hfollows (many_writing hsound rest) hbound hfollow hstop

/-- Where a value is read, it is read behind a comma. -/
theorem accepts_behind_comma (haccepts : Accepts bound reader (Writing sound write) Closes) :
    Accepts bound (do let _ ← char ','; reader) (Writing sound fun value => ',' :: write value)
      Closes := by
  constructor
  rintro value _ rest hlength ⟨hvalue, rfl⟩ hrest
  simp only [List.cons_append, List.length_cons] at hlength
  simpa [Outcome.bind] using haccepts.read (by omega) ⟨hvalue, rfl⟩ hrest

/-- Values with commas between them, up to the bracket that closes them. -/
theorem separated_of_writing (haccepts : Accepts bound reader (Writing sound write) Closes)
    (hsound : ∀ value ∈ values, sound value) {c : Char} (hc : c ∈ [']', '}']) {rest : List Char}
    (hstop : ∃ stop, reader (c :: rest) = .mismatch stop)
    (hbound : ([','].intercalate (values.map write) ++ c :: rest).length ≤ bound) :
    separated (char ',') reader ([','].intercalate (values.map write) ++ c :: rest) =
      .ok values (c :: rest) := by
  have hcloses : Closes (c :: rest) := closes_cons (List.mem_cons_of_mem ',' hc) rest
  cases values with
  | nil =>
      obtain ⟨stop, hmismatch⟩ := hstop
      simp [separated, separated1, attempt, hmismatch, Outcome.bind]
  | cons first others =>
      obtain ⟨hfirst, hothers⟩ := List.forall_mem_cons.mp hsound
      have hcomma : c ≠ ',' := by
        rintro rfl
        exact absurd hc (by decide)
      simp only [List.map_cons, intercalate_cons, List.flatMap_map, List.append_assoc,
        List.singleton_append] at hbound ⊢
      have hbehind : (others.flatMap (',' :: write ·) ++ c :: rest).length ≤ bound :=
        Nat.le_trans (List.suffix_append _ _).length_le hbound
      have hstop : (do let _ ← char ','; reader) (c :: rest) = .mismatch (c :: rest) := by
        simp [Grammar.char_of_ne hcomma, Outcome.bind]
      have hmany := many_of_writing (accepts_behind_comma haccepts) (fun _ => List.cons_ne_nil _ _)
        (fun _ _ => closes_cons (by decide) _) hothers hbehind hcloses hstop
      have hfollows : Closes (others.flatMap (',' :: write ·) ++ c :: rest) := by
        cases others with
        | nil => exact hcloses
        | cons second others => exact closes_cons (by decide) _
      have hread := haccepts.read hbound ⟨hfirst, rfl⟩ hfollows
      simp [separated, separated1, attempt, hread, hmany, Outcome.bind, Outcome.map]

end Writing

/-! ## Strings -/

theorem hexValue?_hexDigit {value : Nat} (hvalue : value < 16) :
    hexValue? (hexDigit value) = some value := by
  have hall : ∀ value < 16, hexValue? (hexDigit value) = some value := by decide
  exact hall value hvalue

/-- The escape of a control character by its code. -/
theorem codePoint_of_lt {c : Char} (hc : c.toNat < 32) (rest : List Char) :
    codePoint ('0' :: '0' :: hexDigit (c.toNat / 16) :: hexDigit (c.toNat % 16) :: rest) =
      .ok c rest := by
  have hhigh := @hexValue?_hexDigit (c.toNat / 16) (by omega)
  have hlow := @hexValue?_hexDigit (c.toNat % 16) (by omega)
  have hzero : hexValue? '0' = some 0 := rfl
  have hunit : ((0 * 16 + 0) * 16 + c.toNat / 16) * 16 + c.toNat % 16 = c.toNat := by omega
  have hsurrogate : isHighSurrogate c.toNat = false ∧ isLowSurrogate c.toNat = false := by
    simp only [isHighSurrogate, isLowSurrogate, Bool.and_eq_false_iff, decide_eq_false_iff_not]
    omega
  simp only [codePoint, bind_apply, codeUnit, hzero, hhigh, hlow, hunit, Outcome.bind,
    hsurrogate, Bool.false_eq_true, if_false, pure_apply, Char.ofNat_toNat]

theorem escapeChar_ne_nil (c : Char) : escapeChar c ≠ [] := by
  unfold escapeChar
  split
  case h_8 => split <;> simp
  all_goals simp

theorem stringChar_escapeChar (c : Char) (rest : List Char) :
    stringChar (escapeChar c ++ rest) = .ok c rest := by
  unfold escapeChar
  split
  · rfl
  · rfl
  · rfl
  · rfl
  · rfl
  · rfl
  · rfl
  split
  · next hcontrol => simpa [stringChar, satisfy, Outcome.bind] using codePoint_of_lt hcontrol rest
  · next hquote hbackslash _ _ _ _ _ hplain =>
      have hspace : ' ' ≤ c := Char.not_lt.mp hplain
      have hquote : c ≠ '"' := hquote
      have hbackslash : c ≠ '\\' := hbackslash
      simp [stringChar, satisfy, Outcome.bind, hspace, hquote, hbackslash]

/-- Strings are read character by character, up to the quote behind them. -/
theorem stringText_stringChars (text : String) (rest : List Char) :
    stringText (stringChars text ++ rest) = .ok text rest := by
  have haccepts : ∀ bound, Accepts bound stringChar (Writing (fun _ => True) escapeChar)
      fun _ => True := by
    intro bound
    constructor
    rintro c _ rest - ⟨-, rfl⟩ -
    exact stringChar_escapeChar c rest
  have hquote : stringChar ('"' :: rest) = .mismatch ('"' :: rest) := rfl
  have hread := many_of_writing (haccepts _) escapeChar_ne_nil (fun _ _ => trivial)
    (fun c (_ : c ∈ text.toList) => trivial) (Nat.le_refl _) trivial hquote
  simp [stringText, stringChars, hread, Outcome.bind, Outcome.map]

/-! ## Integers -/

/-- No number but zero starts with a zero. -/
theorem head?_toDigits_ne {n : Nat} (hn : 0 < n) : (Nat.toDigits 10 n).head? ≠ some '0' := by
  induction n using Nat.strongRecOn with
  | _ n ih =>
      by_cases hsmall : n < 10
      · have hall : ∀ n < 10, 0 < n → (Nat.toDigits 10 n).head? ≠ some '0' := by decide
        exact hall n hsmall hn
      · have hfront := ih (n / 10) (by omega) (by omega)
        rw [Nat.toDigits_of_base_le (by decide) (by omega)]
        rwa [List.head?_append_of_ne_nil _ Nat.toDigits_ne_nil]

/-- Digits with or without a minus sign before them, neither with a zero in front of others
nor a negative zero. -/
theorem number_of_digits {sign digits rest : List Char} (hsign : sign = [] ∨ sign = ['-'])
    (hdigits : Lexeme.isDigits digits) (hzero : ¬ (digits.length > 1 ∧ digits.head? = some '0'))
    (hnegative : sign = [] ∨ digitsValue digits ≠ 0) (hrest : Closes rest) :
    number (sign ++ (digits ++ rest)) = .ok
      (.integer (if sign = [] then (digitsValue digits : Int) else -(digitsValue digits : Int)))
      rest := by
  obtain ⟨minus, hminus, rfl⟩ := Grammar.attempt_sign hsign (Grammar.head_ne_of_isDigits hdigits)
  obtain ⟨hne, hall⟩ := Grammar.isDigits_iff.mp hdigits
  have hwhole := takeWhile1_of_run hne hall (hrest.not_accepts (by decide))
  have hpoint : satisfy (· == '.') rest = .mismatch rest :=
    satisfy_of_head (hrest.not_accepts (by decide))
  have hmark : satisfy (fun c => c == 'e' || c == 'E') rest = .mismatch rest :=
    satisfy_of_head (hrest.not_accepts (by decide))
  rw [number, bind_of_ok hminus, bind_of_ok hwhole, if_neg hzero]
  refine (bind_of_ok (attempt_of_mismatch (bind_of_mismatch hpoint _)) _).trans ?_
  refine (bind_of_ok (attempt_of_mismatch (bind_of_mismatch hmark _)) _).trans ?_
  cases minus with
  | none => rfl
  | some c =>
      have hvalue : digitsValue digits ≠ 0 := by simpa using hnegative
      simp [hvalue]

/-- An integer is read from its own text. -/
theorem number_toString (value : Int) {rest : List Char} (hrest : Closes rest) :
    number ((toString value).toList ++ rest) = .ok (.integer value) rest := by
  have hdigits : ∀ n, Lexeme.isDigits (Nat.toDigits 10 n) := isDigits_toDigits
  have hzero : ∀ n, ¬ ((Nat.toDigits 10 n).length > 1 ∧ (Nat.toDigits 10 n).head? = some '0') := by
    rintro n ⟨hlength, hhead⟩
    rcases Nat.eq_zero_or_pos n with rfl | hpos
    · exact absurd hlength (by decide)
    · exact head?_toDigits_ne hpos hhead
  cases value with
  | ofNat n =>
      have hread := number_of_digits (.inl rfl) (hdigits n) (hzero n) (.inl rfl) hrest
      rw [if_pos rfl, digitsValue_toDigits, List.nil_append] at hread
      rwa [toList_toString_ofNat]
  | negSucc n =>
      have hvalue : digitsValue (Nat.toDigits 10 (n + 1)) ≠ 0 := by
        rw [digitsValue_toDigits]
        exact Nat.succ_ne_zero n
      have hread :=
        number_of_digits (.inr rfl) (hdigits (n + 1)) (hzero (n + 1)) (.inr hvalue) hrest
      rw [if_neg (by simp), digitsValue_toDigits] at hread
      rwa [toList_toString_negSucc]

/-! ## Fields -/

/-- A key that is new is put behind the others, so fields keep their order. -/
theorem setField_of_new {fields : List (String × Json)} {field : String × Json}
    (hnew : field.1 ∉ fields.map (·.1)) : setField fields field = fields ++ [field] := by
  have hany : fields.any (·.1 == field.1) = false := by
    rw [List.any_eq_false]
    intro other hmem hkey
    exact hnew (List.mem_map.mpr ⟨other, hmem, eq_of_beq hkey⟩)
  rw [setField, hany, if_neg (by simp)]

/-- Fields with keys of their own are kept as they are. -/
theorem foldl_setField {fields before : List (String × Json)}
    (hkeys : ((before ++ fields).map (·.1)).Nodup) :
    fields.foldl setField before = before ++ fields := by
  induction fields generalizing before with
  | nil => simp
  | cons field fields ih =>
      have hnew : field.1 ∉ before.map (·.1) := by
        rw [List.map_append, List.nodup_append] at hkeys
        exact fun hmem => hkeys.2.2 _ hmem _ List.mem_cons_self rfl
      rw [List.foldl_cons, setField_of_new hnew, ih (by simpa using hkeys)]
      simp

def field (value : Reader Json) : Reader (String × Json) := do
  blank
  let key ← stringText
  blank
  let _ ← char ':'
  return (key, ← value)

theorem objectOf_eq (value : Reader Json) : objectOf value = (do
    let _ ← char '{'
    let fields ← separated (char ',') (field value)
    blank
    let _ ← char '}'
    return .object (fields.foldl setField [])) := rfl

theorem accepts_field {value : Reader Json} {bound : Nat}
    (haccepts : Accepts bound value (Writing HasDistinctKeys chars) Closes) :
    Accepts bound (field value) (Writing (fun field => field.2.HasDistinctKeys) fieldChars)
      Closes := by
  constructor
  rintro ⟨key, json⟩ _ rest hbound ⟨hjson, rfl⟩ hrest
  have hvalue : value (json.chars ++ rest) = .ok json rest := by
    refine haccepts.read (Nat.le_trans ?_ hbound) ⟨hjson, rfl⟩ hrest
    simp only [fieldChars, List.length_append, List.length_cons]
    omega
  have hkey : blank (fieldChars (key, json) ++ rest) = .ok () (fieldChars (key, json) ++ rest) :=
    blank_of_head (by simp [fieldChars, stringChars, isSpace])
  have hcolon : blank (':' :: (json.chars ++ rest)) = .ok () (':' :: (json.chars ++ rest)) :=
    blank_of_head (by simp [isSpace])
  rw [field, bind_of_ok hkey, fieldChars, List.append_assoc, List.cons_append,
    bind_of_ok (stringText_stringChars _ _), bind_of_ok hcolon, bind_of_ok (Grammar.char_cons _ _),
    bind_of_ok hvalue, pure_apply]

/-! ## Values -/

section Choice

variable {c : Char} {rest : List Char} {depth : Nat}

theorem keyword_of_ne {word : String} {value : Json} {first : Char} {others : List Char}
    (hword : word.toList = first :: others) (hne : c ≠ first) :
    keyword word value (c :: rest) = .mismatch (c :: rest) := by
  rw [keyword, hword]
  exact bind_of_mismatch (bind_of_mismatch (bind_of_mismatch (Grammar.char_of_ne hne) _) _) _

theorem number_of_ne (hminus : c ≠ '-') (hdigit : c.isDigit = false) :
    number (c :: rest) = .mismatch (c :: rest) := by
  have hwhole : takeWhile1 Char.isDigit (c :: rest) = .mismatch (c :: rest) :=
    takeWhile1_of_head (by simpa using hdigit)
  rw [number, bind_of_ok (attempt_of_mismatch (Grammar.char_of_ne hminus)),
    bind_of_mismatch hwhole]

theorem stringText_of_ne (hquote : c ≠ '"') : stringText (c :: rest) = .mismatch (c :: rest) :=
  bind_of_mismatch (Grammar.char_of_ne hquote) _

/-- The value itself, without the blank space around it. -/
def choice (depth : Nat) : Reader Json :=
  orElse (keyword "null" .null) <| orElse (keyword "true" (.bool true)) <|
    orElse (keyword "false" (.bool false)) <| orElse number <|
    orElse (do return .string (← stringText)) <|
    orElse (arrayOf (valueWithin depth)) (objectOf (valueWithin depth))

theorem valueWithin_eq (depth : Nat) : valueWithin (depth + 1) = (do
    blank
    let value ← choice depth
    blank
    return value) := rfl

/-- A value that starts like none of the three words is no word. -/
theorem choice_of_no_word (hc : c ∉ ['n', 't', 'f']) :
    choice depth (c :: rest) = orElse number (orElse (do return .string (← stringText))
      (orElse (arrayOf (valueWithin depth)) (objectOf (valueWithin depth)))) (c :: rest) := by
  simp only [List.mem_cons, List.not_mem_nil, or_false, not_or] at hc
  obtain ⟨hnull, htrue, hfalse⟩ := hc
  rw [choice, orElse_of_mismatch (keyword_of_ne (show "null".toList = 'n' :: _ from rfl) hnull),
    orElse_of_mismatch (keyword_of_ne (show "true".toList = 't' :: _ from rfl) htrue),
    orElse_of_mismatch (keyword_of_ne (show "false".toList = 'f' :: _ from rfl) hfalse)]

theorem choice_of_bracket (hc : c ∈ ['[', '{', ']', '}']) :
    choice depth (c :: rest) =
      orElse (arrayOf (valueWithin depth)) (objectOf (valueWithin depth)) (c :: rest) := by
  have hword : c ∉ ['n', 't', 'f'] := by
    intro hmem
    simp only [List.mem_cons, List.not_mem_nil, or_false] at hmem
    rcases hmem with rfl | rfl | rfl <;> exact absurd hc (by decide)
  have hminus : c ≠ '-' := by
    rintro rfl
    exact absurd hc (by decide)
  have hquote : c ≠ '"' := by
    rintro rfl
    exact absurd hc (by decide)
  have hdigit : c.isDigit = false := by
    simp only [List.mem_cons, List.not_mem_nil, or_false] at hc
    rcases hc with rfl | rfl | rfl | rfl <;> rfl
  rw [choice_of_no_word hword, orElse_of_mismatch (number_of_ne hminus hdigit),
    orElse_of_mismatch (bind_of_mismatch (stringText_of_ne hquote) _)]

end Choice

/-- No value starts with a bracket that closes. -/
theorem valueWithin_of_close {depth : Nat} {c : Char} (hc : c ∈ [']', '}']) (rest : List Char) :
    ∃ stop, valueWithin depth (c :: rest) = .mismatch stop := by
  cases depth with
  | zero => exact ⟨_, rfl⟩
  | succ depth =>
      have hspace : isSpace c = false := by
        simp only [List.mem_cons, List.not_mem_nil, or_false] at hc
        rcases hc with rfl | rfl <;> rfl
      have harray : c ≠ '[' := by
        rintro rfl
        exact absurd hc (by decide)
      have hobject : c ≠ '\x7b' := by
        rintro rfl
        exact absurd hc (by decide)
      rw [valueWithin_eq, bind_of_ok (blank_of_head (by simpa using hspace))]
      refine ⟨c :: rest, bind_of_mismatch ?_ _⟩
      rw [choice_of_bracket (List.mem_cons_of_mem _ (List.mem_cons_of_mem _ hc))]
      refine (orElse_of_mismatch (bind_of_mismatch (Grammar.char_of_ne harray) _)).trans ?_
      exact bind_of_mismatch (Grammar.char_of_ne hobject) _

theorem exists_cons_toString (value : Int) :
    ∃ c tail, (toString value).toList = c :: tail ∧ (c = '-' ∨ c.isDigit) := by
  have hne : (toString value).toList ≠ [] := by
    cases value with
    | ofNat n => exact toList_toString_ofNat n ▸ Nat.toDigits_ne_nil
    | negSucc n => exact toList_toString_negSucc n ▸ List.cons_ne_nil _ _
  obtain ⟨c, tail, htext⟩ := List.exists_cons_of_ne_nil hne
  exact ⟨c, tail, htext, eq_or_isDigit_of_mem_toString (by rw [htext]; exact List.mem_cons_self)⟩

section Items

variable {depth bound : Nat}
  (haccepts : Accepts bound (valueWithin depth) (Writing HasDistinctKeys chars) Closes)

include haccepts

/-- The items of an array have one level less to be read at, and shorter texts. -/
theorem arrayOf_of_items {items : List Json} (hitems : ∀ item ∈ items, item.HasDistinctKeys)
    {rest : List Char} (hbound : ((array items).chars ++ rest).length ≤ bound + 1) :
    arrayOf (valueWithin depth) ((array items).chars ++ rest) = .ok (.array items) rest := by
  rw [chars, charsOfItems_eq_map, List.cons_append, List.cons_append, List.append_assoc,
    List.singleton_append] at hbound ⊢
  have hread := separated_of_writing haccepts hitems (by decide)
    (valueWithin_of_close (by decide) rest) (Nat.le_of_succ_le_succ hbound)
  have hclose : blank (']' :: rest) = .ok () (']' :: rest) := blank_of_head (by simp [isSpace])
  rw [arrayOf, bind_of_ok (Grammar.char_cons _ _), bind_of_ok hread, bind_of_ok hclose,
    bind_of_ok (Grammar.char_cons _ _), pure_apply]

/-- Different keys are needed, as of two fields with one key the reader keeps the last. -/
theorem objectOf_of_fields {fields : List (String × Json)} (hkeys : (fields.map (·.1)).Nodup)
    (hfields : ∀ field ∈ fields, field.2.HasDistinctKeys)
    {rest : List Char} (hbound : ((object fields).chars ++ rest).length ≤ bound + 1) :
    objectOf (valueWithin depth) ((object fields).chars ++ rest) = .ok (.object fields) rest := by
  rw [chars, charsOfFields_eq_map, List.cons_append, List.cons_append, List.append_assoc,
    List.singleton_append] at hbound ⊢
  have hclose : blank ('\x7d' :: rest) = .ok () ('\x7d' :: rest) :=
    blank_of_head (by simp [isSpace])
  have hstop : field (valueWithin depth) ('\x7d' :: rest) = .mismatch ('\x7d' :: rest) := by
    rw [field, bind_of_ok hclose, bind_of_mismatch (stringText_of_ne (by decide))]
  have hread := separated_of_writing (accepts_field haccepts) hfields (by decide) ⟨_, hstop⟩
    (Nat.le_of_succ_le_succ hbound)
  have hfold : fields.foldl setField [] = fields := foldl_setField hkeys
  rw [objectOf_eq, bind_of_ok (Grammar.char_cons _ _), bind_of_ok hread, bind_of_ok hclose,
    bind_of_ok (Grammar.char_cons _ _), pure_apply, hfold]

/-- Each kind of value is told apart from the others by its first character. -/
theorem choice_of_chars {json : Json} (hjson : json.HasDistinctKeys) {rest : List Char}
    (hrest : Closes rest) (hbound : (json.chars ++ rest).length ≤ bound + 1) :
    choice depth (json.chars ++ rest) = .ok json rest := by
  cases hjson with
  | null => rfl
  | @bool value => cases value <;> rfl
  | @integer value =>
      have hread := number_toString value hrest
      obtain ⟨c, tail, htext, hc⟩ := exists_cons_toString value
      have hword : c ∉ ['n', 't', 'f'] := by
        intro hmem
        simp only [List.mem_cons, List.not_mem_nil, or_false] at hmem
        rcases hmem with rfl | rfl | rfl <;> simp at hc
      rw [chars]
      rw [htext, List.cons_append] at hread ⊢
      rw [choice_of_no_word hword, orElse_of_ok hread]
  | @string value =>
      rw [chars, stringChars, List.cons_append, List.cons_append, choice_of_no_word (by decide),
        orElse_of_mismatch (number_of_ne (by decide) (by decide))]
      exact orElse_of_ok (bind_of_ok (stringText_stringChars value rest) _)
  | @array items hitems =>
      have hread := arrayOf_of_items haccepts hitems hbound
      exact (choice_of_bracket (by decide)).trans (orElse_of_ok hread)
  | @object fields hkeys hfields =>
      have hread := objectOf_of_fields haccepts hkeys hfields hbound
      have harray : arrayOf (valueWithin depth) ((object fields).chars ++ rest) =
          .mismatch ((object fields).chars ++ rest) :=
        bind_of_mismatch (Grammar.char_of_ne (by decide)) _
      exact (choice_of_bracket (by decide)).trans ((orElse_of_mismatch harray).trans hread)

end Items

theorem chars_head {json : Json} (hjson : json.HasDistinctKeys) (rest : List Char) :
    ∃ c tail, json.chars ++ rest = c :: tail ∧ isSpace c = false := by
  cases hjson with
  | null => exact ⟨_, _, rfl, rfl⟩
  | @bool value => cases value <;> exact ⟨_, _, rfl, rfl⟩
  | @integer value =>
      obtain ⟨c, tail, htext, hc⟩ := exists_cons_toString value
      refine ⟨c, tail ++ rest, by rw [chars, htext, List.cons_append], ?_⟩
      rcases hc with rfl | hdigit
      · rfl
      · by_contra hspace
        simp only [isSpace, Bool.not_eq_false, Bool.or_eq_true, beq_iff_eq] at hspace
        rcases hspace with ((rfl | rfl) | rfl) | rfl <;> simp at hdigit
  | string | array | object => exact ⟨_, _, rfl, rfl⟩

/-- A level for each character and one more are enough, as every level takes up a
bracket. -/
theorem accepts_valueWithin (depth : Nat) :
    Accepts depth (valueWithin (depth + 1)) (Writing HasDistinctKeys chars) Closes := by
  induction depth with
  | zero =>
      constructor
      rintro json _ rest hbound ⟨hjson, rfl⟩ -
      obtain ⟨c, tail, hchars, -⟩ := chars_head hjson rest
      simp [hchars] at hbound
  | succ depth ih =>
      constructor
      rintro json _ rest hbound ⟨hjson, rfl⟩ hrest
      obtain ⟨c, tail, hchars, hc⟩ := chars_head hjson rest
      have hlead : blank (json.chars ++ rest) = .ok () (json.chars ++ rest) :=
        blank_of_head (by simpa [hchars] using hc)
      rw [valueWithin_eq, bind_of_ok hlead, bind_of_ok (choice_of_chars ih hjson hrest hbound),
        bind_of_ok hrest.blank_eq, pure_apply]

/-- A value is read back from its text. -/
theorem read?_text {json : Json} (hjson : json.HasDistinctKeys) : read? json.text = some json := by
  have hread := (accepts_valueWithin json.text.toList.length).read (Nat.le_refl _)
    ⟨hjson, by simp [text]⟩ (show Closes [] by simp [Closes])
  rw [read?, hread]

/-! ## No control characters -/

theorem space_le_hexDigit {value : Nat} (hvalue : value < 16) : ' ' ≤ hexDigit value := by
  have hall : ∀ value < 16, ' ' ≤ hexDigit value := by decide
  exact hall value hvalue

/-- Whatever a character is, its escape is printable. -/
theorem space_le_of_mem_escapeChar (c : Char) : ∀ d ∈ escapeChar c, ' ' ≤ d := by
  unfold escapeChar
  split
  case h_8 =>
    split
    · next hcontrol =>
        have hsmall : c.toNat < 32 := hcontrol
        have hhigh := @space_le_hexDigit (c.toNat / 16) (by omega)
        have hlow := @space_le_hexDigit (c.toNat % 16) (by omega)
        simp [hhigh, hlow]
    · next hplain => simpa using Char.not_lt.mp hplain
  all_goals simp

/-- What could be a control character is escaped in a string. -/
theorem space_le_of_mem_stringChars (text : String) : ∀ c ∈ stringChars text, ' ' ≤ c := by
  simp only [stringChars, List.cons_append, List.forall_mem_cons, List.forall_mem_append,
    List.forall_mem_flatMap]
  exact ⟨by decide, fun c _ => space_le_of_mem_escapeChar c, by decide, by simp⟩

theorem space_le_of_mem_toString (value : Int) : ∀ c ∈ (toString value).toList, ' ' ≤ c := by
  intro c hmem
  rcases eq_or_isDigit_of_mem_toString hmem with rfl | hdigit
  · decide
  · rw [Char.isDigit, Bool.and_eq_true, decide_eq_true_eq] at hdigit
    exact Char.le_trans (by decide) hdigit.1

/-- The text of a value has no control characters. -/
theorem HasDistinctKeys.space_le {json : Json} (hjson : json.HasDistinctKeys) :
    ∀ c ∈ json.chars, ' ' ≤ c := by
  induction hjson with
  | null => simp [chars]
  | @bool value => cases value <;> simp [chars]
  | integer => exact space_le_of_mem_toString _
  | string => exact space_le_of_mem_stringChars _
  | @array items _ ih =>
      have hitems := @forall_mem_intercalate _ (' ' ≤ ·) [','] _ (by simp)
        (List.forall_mem_map.mpr ih)
      rw [chars, charsOfItems_eq_map, List.cons_append, List.forall_mem_cons,
        List.forall_mem_append]
      exact ⟨by decide, hitems, by simp⟩
  | @object fields _ _ ih =>
      have hfield : ∀ field ∈ fields, ∀ c ∈ fieldChars field, ' ' ≤ c := by
        intro field hmem
        rw [fieldChars, List.forall_mem_append, List.forall_mem_cons]
        exact ⟨space_le_of_mem_stringChars _, by decide, ih field hmem⟩
      have hfields := @forall_mem_intercalate _ (' ' ≤ ·) [','] _ (by simp)
        (List.forall_mem_map.mpr hfield)
      rw [chars, charsOfFields_eq_map, List.cons_append, List.forall_mem_cons,
        List.forall_mem_append]
      exact ⟨by decide, hfields, by simp⟩

end Posl.Json
