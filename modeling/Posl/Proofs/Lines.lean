import Posl.Text.Lines

/-!
# Lines of a text

The lines of a text, said without bytes, and the agreement of the bytes' lines
with them: UTF-8 writes a line feed and a carriage return in one byte each, and
has these bytes in no other character.
-/

namespace Posl

/-- A text and its lines.  A line feed ends a line and takes one carriage return
before it along; what is left behind the last line feed is a line if it is not
empty. -/
inductive Lines : List Char → List String → Prop
  | none : Lines [] []
  | unended {line : String} : line ≠ "" → '\n' ∉ line.toList → Lines line.toList [line]
  | lineFeed {line : String} {rest lines} : '\n' ∉ line.toList →
      line.toList.getLast? ≠ some '\r' → Lines rest lines →
      Lines (line.toList ++ '\n' :: rest) (line :: lines)
  | carriageReturn {line : String} {rest lines} : '\n' ∉ line.toList → Lines rest lines →
      Lines (line.toList ++ '\r' :: '\n' :: rest) (line :: lines)

/-! ## Bytes of characters -/

/-- The bytes of a text in UTF-8. -/
def encode (text : List Char) : List UInt8 := text.flatMap String.utf8EncodeChar

@[simp]
theorem encode_nil : encode [] = [] := rfl

@[simp]
theorem encode_append (left right : List Char) :
    encode (left ++ right) = encode left ++ encode right := by
  simp [encode]

theorem encode_cons (c : Char) (text : List Char) :
    encode (c :: text) = String.utf8EncodeChar c ++ encode text := by
  simp [encode]

theorem encode_lineFeed (text : List Char) : encode ('\n' :: text) = 10 :: encode text := by
  rw [encode_cons]
  rfl

theorem encode_carriageReturn (text : List Char) : encode ('\r' :: text) = 13 :: encode text := by
  rw [encode_cons]
  rfl

/-- The bytes of a text are those of its characters, one after the other. -/
theorem toUTF8_data_toList (text : String) : text.toUTF8.data.toList = encode text.toList := by
  rw [String.toUTF8_eq_toByteArray, ← String.utf8Encode_toList, List.utf8Encode,
    List.toList_data_toByteArray, encode]

theorem decode?_encode (text : String) : decode? (encode text.toList) = some text := by
  have hbytes : ByteArray.mk (encode text.toList).toArray = text.toByteArray := by
    apply ByteArray.ext
    rw [← toUTF8_data_toList, Array.toArray_toList, String.toUTF8_eq_toByteArray]
  rw [decode?, hbytes, String.fromUTF8?, dif_pos text.isValidUTF8, String.fromUTF8]

theorem encode_injective {left right : String} (heq : encode left.toList = encode right.toList) :
    left = right := by
  have hdecode := congrArg decode? heq
  rw [decode?_encode, decode?_encode] at hdecode
  exact Option.some.inj hdecode

/-- Only a character below 128 is written with a byte below 128, and by that one
alone. -/
theorem toNat_of_mem_utf8EncodeChar {c : Char} {byte : UInt8}
    (hmem : byte ∈ String.utf8EncodeChar c) (hbyte : byte.toNat < 128) :
    c.toNat = byte.toNat := by
  rw [Char.toNat]
  simp only [String.utf8EncodeChar] at hmem
  split at hmem
  · rw [List.mem_singleton] at hmem
    rw [hmem, UInt8.toNat_ofNat']
    omega
  split at hmem
  · simp only [List.mem_cons, List.not_mem_nil, or_false] at hmem
    rcases hmem with rfl | rfl <;> rw [UInt8.toNat_ofNat'] at hbyte <;> omega
  split at hmem
  · simp only [List.mem_cons, List.not_mem_nil, or_false] at hmem
    rcases hmem with rfl | rfl | rfl <;> rw [UInt8.toNat_ofNat'] at hbyte <;> omega
  · simp only [List.mem_cons, List.not_mem_nil, or_false] at hmem
    rcases hmem with rfl | rfl | rfl | rfl <;> rw [UInt8.toNat_ofNat'] at hbyte <;> omega

/-- No character but the line feed has its byte among its own. -/
theorem lineFeed_not_mem_encode {text : List Char} (htext : '\n' ∉ text) :
    (10 : UInt8) ∉ encode text := by
  intro hmem
  obtain ⟨c, hc, hbyte⟩ := List.mem_flatMap.mp hmem
  have hfeed : c = '\n' := Char.toNat_inj.mp (toNat_of_mem_utf8EncodeChar hbyte (by decide))
  exact htext (hfeed ▸ hc)

/-- A text that does not end in a carriage return does not end in its byte. -/
theorem getLast?_encode_ne {text : List Char} (htext : text.getLast? ≠ some '\r') :
    (encode text).getLast? ≠ some 13 := by
  intro hlast
  rcases List.eq_nil_or_concat text with rfl | ⟨front, c, rfl⟩
  · simp at hlast
  · rw [List.concat_eq_append] at htext hlast
    rw [encode_append, encode_cons, encode_nil, List.append_nil, List.getLast?_append,
      Option.or_eq_some_iff] at hlast
    rcases hlast with hlast | ⟨hnone, -⟩
    · have hmem : (13 : UInt8) ∈ String.utf8EncodeChar c := List.mem_of_getLast? hlast
      have hreturn : c = '\r' := Char.toNat_inj.mp (toNat_of_mem_utf8EncodeChar hmem (by decide))
      simp [hreturn] at htext
    · exact String.utf8EncodeChar_ne_nil (List.getLast?_eq_none_iff.mp hnone)

/-! ## Lines of bytes -/

/-- Bytes without a line feed only go on with the line that was begun. -/
theorem splitLinesFrom_append {body : List UInt8} (hbody : 10 ∉ body)
    (reversed rest : List UInt8) :
    splitLinesFrom reversed (body ++ rest) = splitLinesFrom (body.reverse ++ reversed) rest := by
  induction body generalizing reversed with
  | nil => rfl
  | cons byte body ih =>
      have hbyte : byte ≠ 10 := fun heq => hbody (by simp [heq])
      have hothers : 10 ∉ body := fun hmem => hbody (List.mem_cons_of_mem _ hmem)
      rw [List.cons_append, splitLinesFrom, if_neg hbyte, ih hothers]
      simp

theorem endLine_reverse {line : List UInt8} (hline : line.getLast? ≠ some 13) :
    endLine line.reverse = line := by
  rw [← List.head?_reverse] at hline
  unfold endLine
  split
  · next hcons => simp [hcons] at hline
  · exact List.reverse_reverse line

theorem splitLines_lineFeed {line : List UInt8} (hline : 10 ∉ line)
    (hlast : line.getLast? ≠ some 13) (rest : List UInt8) :
    splitLines (line ++ 10 :: rest) = line :: splitLines rest := by
  rw [splitLines, splitLinesFrom_append hline, List.append_nil, splitLinesFrom, if_pos rfl,
    endLine_reverse hlast, splitLines]

/-- One carriage return before a line feed belongs to the end of the line. -/
theorem splitLines_carriageReturn {line : List UInt8} (hline : 10 ∉ line) (rest : List UInt8) :
    splitLines (line ++ 13 :: 10 :: rest) = line :: splitLines rest := by
  rw [splitLines, splitLinesFrom_append hline, List.append_nil, splitLinesFrom,
    if_neg (by decide), splitLinesFrom, if_pos rfl, endLine, List.reverse_reverse, splitLines]

/-- What is left behind the last line feed is a line of its own. -/
theorem splitLines_unended {line : List UInt8} (hline : 10 ∉ line) (hne : line ≠ []) :
    splitLines line = [line] := by
  have hsplit := splitLinesFrom_append hline [] []
  rw [List.append_nil] at hsplit
  rw [splitLines, hsplit, splitLinesFrom, if_neg (by simpa using hne), List.append_nil,
    List.reverse_reverse]

namespace Lines

/-- The bytes of a text are split into the bytes of its lines. -/
theorem splitLines_encode {text : List Char} {lines : List String} (hlines : Lines text lines) :
    splitLines (encode text) = lines.map (encode ·.toList) := by
  induction hlines with
  | none => rfl
  | @unended line hne hline =>
      have hbytes : encode line.toList ≠ [] := by
        intro hnil
        apply hne
        exact encode_injective hnil
      exact splitLines_unended (lineFeed_not_mem_encode hline) hbytes
  | lineFeed hline hlast _ ih =>
      rw [encode_append, encode_lineFeed, splitLines_lineFeed (lineFeed_not_mem_encode hline)
        (getLast?_encode_ne hlast), ih, List.map_cons]
  | carriageReturn hline _ ih =>
      rw [encode_append, encode_carriageReturn, encode_lineFeed,
        splitLines_carriageReturn (lineFeed_not_mem_encode hline), ih, List.map_cons]

/-- A text has no two divisions into lines, as its bytes have one. -/
theorem unique {text : List Char} {lines other : List String} (hlines : Lines text lines)
    (hother : Lines text other) : lines = other := by
  have hbytes : lines.map (encode ·.toList) = other.map (encode ·.toList) := by
    rw [← hlines.splitLines_encode, hother.splitLines_encode]
  exact (List.map_inj_right fun _ _ heq => encode_injective heq).mp hbytes

end Lines

/-- The text behind the first line feed is shorter, and has lines by induction. -/
theorem exists_lines (text : List Char) : ∃ lines, Lines text lines := by
  by_cases hfeed : '\n' ∈ text
  · obtain ⟨line, rest, rfl, hline⟩ := List.eq_append_cons_of_mem hfeed
    obtain ⟨lines, hlines⟩ := exists_lines rest
    by_cases hreturn : line.getLast? = some '\r'
    · obtain ⟨front, rfl⟩ := List.getLast?_eq_some_iff.mp hreturn
      have hfront : '\n' ∉ (String.ofList front).toList := by
        rw [String.toList_ofList]
        exact fun hmem => hline (List.mem_append_left _ hmem)
      have hwhole := Lines.carriageReturn hfront hlines
      rw [String.toList_ofList] at hwhole
      exact ⟨_, by simpa using hwhole⟩
    · rw [← String.toList_ofList (l := line)] at hline hreturn ⊢
      exact ⟨_, .lineFeed hline hreturn hlines⟩
  · by_cases hnil : text = []
    · exact ⟨[], hnil ▸ .none⟩
    · rw [← String.toList_ofList (l := text)] at hfeed ⊢
      refine ⟨[String.ofList text], .unended ?_ hfeed⟩
      rwa [ne_eq, String.ofList_eq_empty_iff]
termination_by text.length
decreasing_by
  subst_vars
  simp only [List.length_append, List.length_cons]
  omega

end Posl
