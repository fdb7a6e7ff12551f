import Posl.Serve
import Posl.Proofs.Lines

/-!
# Serving line by line

Serving a text to its end answers each line for itself: what is written is put
together from what the lines give one by one, and a text can be cut between two
lines and served in two parts.
-/

namespace Posl

/-! ## One line -/

/-- The text of a line without the white space at its ends. -/
def trimmed (line : String) : String := .ofList (trim line.toList)

/-- Whether a line asks anything: one that is blank or starts with a percent sign
does not. -/
def asksQuery (line : String) : Bool :=
  !(trim line.toList).isEmpty && (trim line.toList).head? != some '%'

def asksWrongly (line : String) : Bool :=
  asksQuery line && !(TypeQuery.parse (trimmed line)).isOk

def record (number : Nat) (query : String) :
    OutputFormat → Except TypeQueryError TypeQuery → String
  | .json, .ok result =>
    (Json.object [("line", .integer number), ("query", .string query),
      ("result", result.toJson)]).text ++ "\n"
  | .json, .error error =>
    (Json.object [("line", .integer number), ("query", .string query),
      ("error", .string error.message)]).text ++ "\n"
  | .text, .ok result => query ++ " => " ++ result.summary ++ "\n"
  | .text, .error _ => ""

def errorRecord (colored : Bool) (number : Nat) :
    OutputFormat → Except TypeQueryError TypeQuery → String
  | .text, .error error =>
    Style.paint { color := .red, bold := true } colored "error:" ++ " line " ++
      toString number ++ ": " ++ error.message ++ "\n"
  | .json, _ | .text, .ok _ => ""

/-- What a line adds to the standard output, given by its number and its text
alone. -/
def lineOutput (format : OutputFormat) (number : Nat) (line : String) : String :=
  if asksQuery line then record number (trimmed line) format (TypeQuery.parse (trimmed line))
  else ""

def lineErrorOutput (format : OutputFormat) (colored : Bool) (number : Nat) (line : String) :
    String :=
  if asksQuery line then errorRecord colored number format (TypeQuery.parse (trimmed line)) else ""

def lineReply? (number : Nat) (line : String) : Option Reply :=
  if asksQuery line then some (.ofQuery number (trimmed line)) else none

/-- A line is asked about without the white space at its ends, or not at all. -/
theorem queryOfLine?_eq (line : String) :
    queryOfLine? line = if asksQuery line then some (trimmed line) else none := by
  unfold queryOfLine? asksQuery trimmed
  cases htrim : trim line.toList with
  | nil => simp
  | cons c rest =>
      by_cases hc : c = '%'
      · subst hc
        simp
      · simp [hc]

theorem isFailure_ofQuery (number : Nat) (query : String) :
    (Reply.ofQuery number query).isFailure = !(TypeQuery.parse query).isOk := by
  unfold Reply.isFailure Reply.ofQuery
  cases TypeQuery.parse query <;> rfl

/-- What a reply adds to the output is told by its line, its query and its result. -/
theorem output_eq_record (reply : Reply) (format : OutputFormat) :
    reply.output format = record reply.line reply.query format reply.result := by
  obtain ⟨number, query, result⟩ := reply
  cases format with
  | json => cases result <;> rfl
  | text => cases result <;> rfl

theorem errorOutput_eq_errorRecord (reply : Reply) (format : OutputFormat) (colored : Bool) :
    reply.errorOutput format colored = errorRecord colored reply.line format reply.result := by
  obtain ⟨number, query, result⟩ := reply
  cases format with
  | json => rfl
  | text => cases result <;> rfl

/-- Texts of some of the values are the texts of all, if those left out have
none. -/
theorem join_filterMap {α β : Type} {f : α → Option β} {ofResult : β → String}
    {ofValue : α → String} (hvalue : ∀ value, ofValue value = ((f value).map ofResult).getD "")
    (values : List α) :
    String.join ((values.filterMap f).map ofResult) = String.join (values.map ofValue) := by
  induction values with
  | nil => rfl
  | cons value values ih =>
      rw [List.map_cons, String.join_cons, hvalue, ← ih]
      cases hresult : f value with
      | none =>
          rw [List.filterMap_cons_none hresult, Option.map_none, Option.getD_none,
            String.empty_append]
      | some result =>
          rw [List.filterMap_cons_some hresult, List.map_cons, String.join_cons, Option.map_some,
            Option.getD_some]

namespace Transcript

/-! ## Running on -/

/-- The replies with their lines moved on. -/
def shift (count : Nat) (transcript : Transcript) : Transcript where
  replies := transcript.replies.map fun reply => { reply with line := reply.line + count }
  unreadable := transcript.unreadable.map (· + count)

/-- What is served after a transcript that nothing has ended. -/
def append (first second : Transcript) : Transcript where
  replies := first.replies ++ second.replies
  unreadable := second.unreadable

@[simp]
theorem served_append (first second : Transcript) :
    (first.append second).served = first.served + second.served := by
  simp [append, served]

@[simp]
theorem failed_append (first second : Transcript) :
    (first.append second).failed = first.failed + second.failed := by
  simp [append, failed]

@[simp]
theorem output_append (first second : Transcript) (format : OutputFormat) :
    (first.append second).output format = first.output format ++ second.output format := by
  simp [append, output]

@[simp]
theorem errorOutput_append (first second : Transcript) (format : OutputFormat) (colored : Bool) :
    (first.append second).errorOutput format colored =
      first.errorOutput format colored ++ second.errorOutput format colored := by
  simp [append, errorOutput]

@[simp]
theorem served_shift (count : Nat) (transcript : Transcript) :
    (transcript.shift count).served = transcript.served := by
  simp [shift, served]

@[simp]
theorem failed_shift (count : Nat) (transcript : Transcript) :
    (transcript.shift count).failed = transcript.failed := by
  simp only [shift, failed, List.countP_map]
  rfl

theorem add_append (reply : Reply) (first second : Transcript) :
    (first.add reply).append second = (first.append second).add reply := rfl

/-! ## One step -/

/-- A line that can be read adds its reply, if it asks for one, to what the lines
after it give. -/
theorem ofLines_cons {line : List UInt8} {text : String} (hline : decode? line = some text)
    (number : Nat) (lines : List (List UInt8)) :
    ofLines false number (line :: lines) =
      if asksQuery text then
        (ofLines false (number + 1) lines).add (.ofQuery number (trimmed text))
      else ofLines false (number + 1) lines := by
  rw [ofLines, hline]
  dsimp only
  rw [queryOfLine?_eq]
  split <;> simp_all

/-- Lines that all can be read leave serving where the next ones begin. -/
theorem ofLines_append (number : Nat) {first : List (List UInt8)} (second : List (List UInt8))
    (hfirst : (ofLines false number first).unreadable = none) :
    ofLines false number (first ++ second) =
      (ofLines false number first).append (ofLines false (number + first.length) second) := by
  induction first generalizing number with
  | nil => rfl
  | cons line lines ih =>
      have hnumber : number + (line :: lines).length = number + 1 + lines.length := by
        rw [List.length_cons]
        omega
      cases hline : decode? line with
      | none => simp [ofLines, hline] at hfirst
      | some text =>
          rw [ofLines_cons hline] at hfirst
          rw [List.cons_append, ofLines_cons hline, ofLines_cons hline, hnumber]
          split
          · next hasks =>
              rw [if_pos hasks] at hfirst
              rw [ih (number + 1) hfirst, add_append]
          · next hasks =>
              rw [if_neg hasks] at hfirst
              exact ih (number + 1) hfirst

/-- Where counting begins is of no account for what is replied. -/
theorem ofLines_shift (failFast : Bool) (number count : Nat) (lines : List (List UInt8)) :
    ofLines failFast (number + count) lines = (ofLines failFast number lines).shift count := by
  induction lines generalizing number with
  | nil => rfl
  | cons line lines ih =>
      have hnumber : number + count + 1 = number + 1 + count := by omega
      cases hline : decode? line with
      | none => simp [ofLines, hline, shift]
      | some text =>
          rw [ofLines, ofLines, hline]
          dsimp only
          cases queryOfLine? text with
          | none =>
              dsimp only
              rw [hnumber, ih]
          | some query =>
              dsimp only
              rw [hnumber, ih, isFailure_ofQuery, isFailure_ofQuery]
              split <;> rfl

/-! ## Whole texts -/

section

variable (number : Nat) (lines : List String)

/-- Each line is replied to for itself. -/
theorem ofLines_encode :
    ofLines false number (lines.map (encode ·.toList)) =
      { replies := (lines.zipIdx number).filterMap fun entry => lineReply? entry.2 entry.1
        unreadable := none } := by
  induction lines generalizing number with
  | nil => rfl
  | cons line lines ih =>
      rw [List.map_cons, ofLines_cons (decode?_encode line), ih, List.zipIdx_cons]
      by_cases hasks : asksQuery line
      · simp [lineReply?, hasks, add]
      · simp [lineReply?, hasks]

/-- A count over numbered lines is one over the lines if it takes no account of
the numbers. -/
theorem countP_zipIdx {counts : String × Nat → Bool} {countsLine : String → Bool}
    (hcounts : ∀ entry, counts entry = countsLine entry.1) :
    (lines.zipIdx number).countP counts = lines.countP countsLine := by
  have hentry : counts = countsLine ∘ Prod.fst := funext hcounts
  rw [hentry, ← List.countP_map, List.zipIdx_map_fst]

theorem served_ofLines :
    (ofLines false number (lines.map (encode ·.toList))).served = lines.countP asksQuery := by
  rw [ofLines_encode, served, List.length_filterMap_eq_countP]
  apply countP_zipIdx
  intro entry
  by_cases hasks : asksQuery entry.1 <;> simp [lineReply?, hasks]

theorem failed_ofLines :
    (ofLines false number (lines.map (encode ·.toList))).failed = lines.countP asksWrongly := by
  rw [ofLines_encode, failed, List.countP_filterMap]
  apply countP_zipIdx
  intro entry
  by_cases hasks : asksQuery entry.1 <;> simp [lineReply?, hasks, asksWrongly, isFailure_ofQuery]

/-- Line by line, nothing of what stands in one line has an effect on another one's
output. -/
theorem output_ofLines (format : OutputFormat) :
    (ofLines false number (lines.map (encode ·.toList))).output format =
      String.join ((lines.zipIdx number).map fun entry =>
        lineOutput format entry.2 entry.1) := by
  rw [ofLines_encode, output]
  apply join_filterMap
  intro entry
  by_cases hasks : asksQuery entry.1
  · simp [lineOutput, lineReply?, hasks, output_eq_record, Reply.ofQuery]
  · simp [lineOutput, lineReply?, hasks]

theorem errorOutput_ofLines (format : OutputFormat) (colored : Bool) :
    (ofLines false number (lines.map (encode ·.toList))).errorOutput format colored =
      String.join ((lines.zipIdx number).map fun entry =>
        lineErrorOutput format colored entry.2 entry.1) := by
  rw [ofLines_encode, errorOutput]
  apply join_filterMap
  intro entry
  by_cases hasks : asksQuery entry.1
  · simp [lineErrorOutput, lineReply?, hasks, errorOutput_eq_errorRecord, Reply.ofQuery]
  · simp [lineErrorOutput, lineReply?, hasks]

end

/-- In JSON all that is said of a query stands on the output. -/
theorem errorOutput_json (transcript : Transcript) (colored : Bool) :
    transcript.errorOutput .json colored = "" := by
  rw [errorOutput]
  induction transcript.replies with
  | nil => rfl
  | cons reply replies ih =>
      rw [List.map_cons, String.join_cons, ih, Reply.errorOutput, String.append_empty]

/-- The lines of bytes are those of the text that they are the bytes of. -/
theorem ofBytes_encode {text : String} {lines : List String} (hlines : Lines text.toList lines)
    (failFast : Bool) :
    ofBytes failFast text.toUTF8.data.toList =
      ofLines failFast 1 (lines.map (encode ·.toList)) := by
  rw [ofBytes, toUTF8_data_toList, hlines.splitLines_encode]

/-- Serving two pieces of a text one after the other, where the second piece goes
on in the numbering of lines. -/
theorem ofBytes_append {text first second : String} {firstLines secondLines : List String}
    (hlines : Lines text.toList (firstLines ++ secondLines))
    (hfirst : Lines first.toList firstLines) (hsecond : Lines second.toList secondLines) :
    ofBytes false text.toUTF8.data.toList =
      (ofBytes false first.toUTF8.data.toList).append
        ((ofBytes false second.toUTF8.data.toList).shift firstLines.length) := by
  have hreadable : (ofLines false 1 (firstLines.map (encode ·.toList))).unreadable = none := by
    rw [ofLines_encode]
  rw [ofBytes_encode hlines, ofBytes_encode hfirst, ofBytes_encode hsecond, List.map_append,
    ofLines_append 1 _ hreadable, List.length_map, ofLines_shift]

/-- A text is served line by line.  Its counts are numbers of lines, its outputs
are what the lines give in their order, and at the end of any of its lines the
run can be cut in two. -/
theorem ofBytes_linewise (input : String) (colored : Bool) :
    ∃ lines, Lines input.toList lines ∧ (∀ other, Lines input.toList other → other = lines) ∧
      let transcript := ofBytes false input.toUTF8.data.toList
      transcript.unreadable = none ∧
      transcript.served = lines.countP asksQuery ∧
      transcript.failed = lines.countP asksWrongly ∧
      (∀ format, transcript.output format =
        String.join ((lines.zipIdx 1).map fun entry => lineOutput format entry.2 entry.1)) ∧
      (∀ format, transcript.errorOutput format colored =
        String.join ((lines.zipIdx 1).map fun entry =>
          lineErrorOutput format colored entry.2 entry.1)) ∧
      transcript.errorOutput .json colored = "" ∧
      ∀ (first second : String) (firstLines secondLines : List String),
        Lines first.toList firstLines → Lines second.toList secondLines →
        lines = firstLines ++ secondLines →
        let before := ofBytes false first.toUTF8.data.toList
        let behind := ofBytes false second.toUTF8.data.toList
        let shifted := behind.shift firstLines.length
        transcript.replies = before.replies ++ shifted.replies ∧
        transcript.served = before.served + behind.served ∧
        transcript.failed = before.failed + behind.failed ∧
        (∀ format, transcript.output format = before.output format ++ shifted.output format) ∧
        ∀ format, transcript.errorOutput format colored =
          before.errorOutput format colored ++ shifted.errorOutput format colored := by
  obtain ⟨lines, hlines⟩ := exists_lines input.toList
  refine ⟨lines, hlines, fun other hother => hother.unique hlines, ?_⟩
  intro transcript
  have htranscript : transcript = ofLines false 1 (lines.map (encode ·.toList)) :=
    ofBytes_encode hlines false
  refine ⟨?_, ?_, ?_, ?_, ?_, errorOutput_json transcript colored, ?_⟩
  · rw [htranscript, ofLines_encode]
  · rw [htranscript, served_ofLines]
  · rw [htranscript, failed_ofLines]
  · intro format
    rw [htranscript, output_ofLines]
  · intro format
    rw [htranscript, errorOutput_ofLines]
  · intro first second firstLines secondLines hfirst hsecond hsplit before behind shifted
    have happend : transcript = before.append shifted :=
      ofBytes_append (hsplit ▸ hlines) hfirst hsecond
    rw [happend]
    refine ⟨rfl, ?_, ?_, output_append before shifted, ?_⟩
    · rw [served_append, served_shift]
    · rw [failed_append, failed_shift]
    · intro format
      exact errorOutput_append before shifted format colored

end Transcript

end Posl
