import Posl.Json.Read
import Posl.Proofs.JsonRecords
import Posl.Proofs.JsonText
import Posl.Proofs.OneLine
import Posl.Proofs.Truncation

/-!
# Replies line by line

Every reply is one line of an output.  In JSON that line has no control characters, and
the reply can be read back from it; in text the requests are on the standard output and
the errors apart.
-/

namespace Posl

/-! ## Lines that are written -/

/-- A text made of lines that are all ended by a line feed. -/
structure HasRecords (text : String) (records : List String) : Prop where
  isOneLine : ∀ record ∈ records, IsOneLine record
  text_eq : text = String.join (records.map (· ++ "\n"))

/-- Some of the values have a line each, and the others leave no trace. -/
theorem hasRecords_join {α : Type} {record? : α → Option String} {write : α → String}
    (hwrite : ∀ value, write value = ((record? value).map (· ++ "\n")).getD "")
    {values : List α}
    (hrecord : ∀ value ∈ values, ∀ record ∈ record? value, IsOneLine record) :
    HasRecords (String.join (values.map write)) (values.filterMap record?) where
  isOneLine := by
    intro record hmem
    obtain ⟨value, hvalue, hsome⟩ := List.mem_filterMap.mp hmem
    exact hrecord value hvalue record hsome
  text_eq := (join_filterMap hwrite values).symm

theorem Lines.isOneLine {text : List Char} {lines : List String} (hlines : Lines text lines) :
    ∀ line ∈ lines, IsOneLine line := by
  induction hlines with
  | none => simp
  | unended _ hline => exact List.forall_mem_singleton.mpr hline
  | lineFeed hline _ _ ih | carriageReturn hline _ ih => exact List.forall_mem_cons.mpr ⟨hline, ih⟩

namespace Reply

/-! ## Replies in JSON -/

/-- A value that tells a reply: its line, its query, and either the request or what is
wrong with the query. -/
structure IsToldBy (reply : Reply) (json : Json) : Prop where
  line : json.get? "line" = some (.integer reply.line)
  query : json.get? "query" = some (.string reply.query)
  request : ∀ request, reply.result = .ok request →
    (json.get? "result").bind TypeQuery.ofJson? = some request ∧ json.get? "error" = none
  error : ∀ error, reply.result = .error error →
    json.get? "error" = some (.string error.message) ∧ json.get? "result" = none

def layouts : List (List String) :=
  ["line", "query", "result"] :: ["line", "query", "error"] :: TypeQuery.layouts

variable (reply : Reply)

theorem isToldBy_toJson : reply.IsToldBy reply.toJson := by
  obtain ⟨line, query, result⟩ := reply
  cases result with
  | ok request =>
      refine ⟨rfl, rfl, fun other hother => ⟨?_, rfl⟩, fun _ herror => (by cases herror)⟩
      cases hother
      exact TypeQuery.codes.read_write request trivial
  | error error =>
      refine ⟨rfl, rfl, fun _ hrequest => (by cases hrequest), fun other hother => ⟨?_, rfl⟩⟩
      cases hother
      rfl

theorem isLaidOut_toJson : reply.toJson.IsLaidOut layouts := by
  obtain ⟨line, query, result⟩ := reply
  cases result with
  | ok request =>
      have hrequest := request.isLaidOut_toJson.mono (List.subset_append_right
        [["line", "query", "result"], ["line", "query", "error"]] _)
      exact .object (by simp [layouts]) (by simpa using ⟨.integer, .string, hrequest⟩)
  | error error =>
      exact .object (by simp [layouts]) (by simpa using ⟨.integer, .string, .string⟩)

/-- The layouts of replies have no key twice, so their text is read back. -/
theorem hasDistinctKeys_toJson : reply.toJson.HasDistinctKeys :=
  reply.isLaidOut_toJson.hasDistinctKeys (by decide)

theorem space_le_toJson : ∀ c ∈ reply.toJson.text.toList, ' ' ≤ c := by
  rw [Json.text, String.toList_ofList]
  exact reply.hasDistinctKeys_toJson.space_le

/-- The tab and the quotes of a class are escaped in the query and in the request. -/
example : (ofQuery 3 "lub(_, \"a\tb\")").toJson.text =
    "\x7b\"line\":3,\"query\":\"lub(_, \\\"a\\tb\\\")\",\"result\":" ++
      "\x7b\"predicate\":\"lub\",\"result_var\":null," ++
        "\"class_names\":[\"\\\"a\\tb\\\"\"]\x7d\x7d" := by
  decide +kernel

/-! ## Replies in text -/

/-- The line of a request on the standard output. -/
def summary? : Option String :=
  match reply.result with
  | .ok request => some (reply.query ++ " => " ++ request.summary)
  | .error _ => none

def complaint? (colored : Bool) : Option String :=
  match reply.result with
  | .ok _ => none
  | .error error =>
    some (Style.paint { color := .red, bold := true } colored "error:" ++ " line " ++
      toString reply.line ++ ": " ++ error.message)

theorem output_text : reply.output .text = (reply.summary?.map (· ++ "\n")).getD "" := by
  obtain ⟨line, query, result⟩ := reply
  cases result <;> rfl

/-- In text a reply to a wrong query is one line on the standard error stream. -/
theorem errorOutput_text (colored : Bool) :
    reply.errorOutput .text colored = ((reply.complaint? colored).map (· ++ "\n")).getD "" := by
  obtain ⟨line, query, result⟩ := reply
  cases result <;> rfl

theorem isSome_complaint? (colored : Bool) :
    (reply.complaint? colored).isSome = reply.isFailure := by
  obtain ⟨line, query, result⟩ := reply
  cases result <;> rfl

/-- Each reply has its line on one of the two streams. -/
theorem isSome_summary? : reply.summary?.isSome = !reply.isFailure := by
  obtain ⟨line, query, result⟩ := reply
  cases result <;> rfl

section

variable {number : Nat} {query : String} (hline : IsOneLine query)

include hline

/-- A summary stands on one line behind its query, if the query stands on one line. -/
theorem isOneLine_summary? : ∀ record ∈ (ofQuery number query).summary?, IsOneLine record := by
  intro record hrecord
  rw [summary?, ofQuery] at hrecord
  cases hresult : TypeQuery.parse query with
  | error error => simp [hresult] at hrecord
  | ok request =>
      obtain rfl : query ++ " => " ++ request.summary = record := by simpa [hresult] using hrecord
      have hsummary := (TypeQuery.parse_eq_ok_iff.mp hresult).isOneLine_summary hline
      exact .append (.append hline (by decide)) hsummary

theorem isOneLine_complaint? (colored : Bool) :
    ∀ record ∈ (ofQuery number query).complaint? colored, IsOneLine record := by
  intro record hrecord
  rw [complaint?, ofQuery] at hrecord
  cases hresult : TypeQuery.parse query with
  | ok request => simp [hresult] at hrecord
  | error error =>
      have hlabel : IsOneLine (Style.paint { color := .red, bold := true } colored "error:") := by
        cases colored <;> decide
      have hmessage := (TypeQuery.parse_eq_error_iff.mp hresult).isOneLine_message hline
      simp only [hresult, Option.mem_def, Option.some.injEq] at hrecord
      subst hrecord
      exact .append (.append (.append (.append hlabel (by decide)) (isOneLine_toString _))
        (by decide)) hmessage

end

end Reply

namespace Transcript

/-! ## Runs that end early -/

/-- The replies up to the first one to a wrong query. -/
def upToFailure : List Reply → List Reply
  | [] => []
  | reply :: replies => if reply.isFailure then [reply] else reply :: upToFailure replies

theorem upToFailure_subset (replies : List Reply) : upToFailure replies ⊆ replies := by
  induction replies with
  | nil => exact List.Subset.refl _
  | cons reply replies ih =>
      rw [upToFailure]
      split
      · simp
      · exact List.cons_subset_cons reply ih

theorem replies_lead_true (number : Nat) (line : List UInt8) {behind other : Transcript}
    (hbehind : behind.replies = upToFailure other.replies) :
    (lead true number line behind).replies =
      upToFailure (lead false number line other).replies := by
  rw [lead, lead]
  cases decode? line with
  | none => rfl
  | some text =>
      by_cases hasks : asksQuery text
      · have hwrong : asksWrongly text = (Reply.ofQuery number (trimmed text)).isFailure := by
          rw [asksWrongly, hasks, isFailure_ofQuery, Bool.true_and]
        simp only [hasks, hwrong, Bool.true_and, Bool.false_and, if_true]
        generalize Reply.ofQuery number (trimmed text) = reply
        cases hfailure : reply.isFailure with
        | false => simp [add, upToFailure, hfailure, hbehind]
        | true => simp [add, upToFailure, hfailure]
      · simpa [hasks] using hbehind

/-- Serving that ends at failures replies as serving to the end does, up to the first
failure. -/
theorem replies_ofLines_true (number : Nat) (lines : List (List UInt8)) :
    (ofLines true number lines).replies = upToFailure (ofLines false number lines).replies := by
  induction lines generalizing number with
  | nil => rfl
  | cons line lines ih =>
      rw [ofLines_cons_eq_lead, ofLines_cons_eq_lead]
      exact replies_lead_true number line (ih (number + 1))

/-! ## Whole texts -/

section

variable {text : String} {lines : List String} (hlines : Lines text.toList lines)
  (failFast : Bool)

include hlines

/-- Nothing but a wrong query keeps a run from replying to all lines that ask. -/
theorem replies_ofBytes :
    let transcript := ofBytes failFast text.toUTF8.data.toList
    let replies := (lines.zipIdx 1).filterMap fun entry => lineReply? entry.2 entry.1
    transcript.unreadable = none ∧
      transcript.replies = if failFast then upToFailure replies else replies := by
  intro transcript replies
  have htranscript : transcript = _ := ofBytes_encode hlines failFast
  have hreplies : (ofLines false 1 (lines.map (encode ·.toList))).replies = replies := by
    rw [ofLines_encode]
  constructor
  · rw [htranscript]
    refine unreadable_ofLines (List.forall_mem_map.mpr fun line _ => ?_) failFast 1
    simp [Unreadable, decode?_encode]
  · rw [htranscript, ← hreplies]
    cases failFast with
    | false => rfl
    | true => exact replies_ofLines_true 1 _

/-- What is replied to is one line. -/
theorem exists_query_of_mem_replies :
    ∀ reply ∈ (ofBytes failFast text.toUTF8.data.toList).replies,
      ∃ number query, reply = .ofQuery number query ∧ IsOneLine query := by
  intro reply hmem
  have hall : reply ∈ (lines.zipIdx 1).filterMap fun entry => lineReply? entry.2 entry.1 := by
    rw [(replies_ofBytes hlines failFast).2] at hmem
    split at hmem
    · exact upToFailure_subset _ hmem
    · exact hmem
  obtain ⟨⟨line, number⟩, hentry, hreply⟩ := List.mem_filterMap.mp hall
  obtain ⟨-, rfl⟩ : asksQuery line ∧ Reply.ofQuery number (trimmed line) = reply := by
    simpa [lineReply?] using hreply
  have hline := hlines.isOneLine line (List.fst_mem_of_mem_zipIdx hentry)
  refine ⟨number, trimmed line, rfl, ?_⟩
  rw [IsOneLine, trimmed, String.toList_ofList]
  exact fun hfeed => hline (trim_subset _ hfeed)

end

/-- In JSON each reply is a line of the output. -/
theorem hasRecords_output_json (transcript : Transcript) :
    HasRecords (transcript.output .json) (transcript.replies.map (·.toJson.text)) where
  isOneLine := by
    refine List.forall_mem_map.mpr fun reply _ hfeed => ?_
    exact absurd (reply.space_le_toJson _ hfeed) (by decide)
  text_eq := by
    rw [output, List.map_map]
    rfl

theorem length_summaries (transcript : Transcript) :
    (transcript.replies.filterMap Reply.summary?).length + transcript.failed =
      transcript.served := by
  have hsplit : transcript.replies.length = _ := List.length_eq_countP_add_countP Reply.isFailure
  simp only [Bool.not_eq_true, Bool.decide_eq_false] at hsplit
  rw [served, failed, List.length_filterMap_eq_countP, hsplit, Nat.add_comm]
  simp only [Reply.isSome_summary?]

theorem length_complaints (transcript : Transcript) (colored : Bool) :
    (transcript.replies.filterMap (·.complaint? colored)).length = transcript.failed := by
  simp only [failed, List.length_filterMap_eq_countP, Reply.isSome_complaint?]

/-- The queries of a text are replied to in their order, up to the first wrong one if the
run is to end there, and each reply is a line of its own.  In JSON the lines have no
control characters, and each of them is read as a value that tells its reply: the number
of the line, the query on it, and either the request or the error.  In text there is a
line for each request, and a line on the standard error stream for each error. -/
theorem ofBytes_writes_records (text : String) (failFast colored : Bool) :
    ∃ lines, Lines text.toList lines ∧
      let transcript := ofBytes failFast text.toUTF8.data.toList
      let replies := (lines.zipIdx 1).filterMap fun entry => lineReply? entry.2 entry.1
      transcript.unreadable = none ∧
      transcript.replies = (if failFast then upToFailure replies else replies) ∧
      (∃ records, HasRecords (transcript.output .json) records ∧
        records.length = transcript.served ∧
        (∀ record ∈ records, ∀ c ∈ record.toList, ' ' ≤ c) ∧
        List.Forall₂ (fun reply record => ∃ json, Json.read? record = some json ∧
          Reply.IsToldBy reply json) transcript.replies records) ∧
      transcript.errorOutput .json colored = "" ∧
      (let summaries := transcript.replies.filterMap Reply.summary?
      HasRecords (transcript.output .text) summaries ∧
        summaries.length + transcript.failed = transcript.served) ∧
      let complaints := transcript.replies.filterMap (·.complaint? colored)
      HasRecords (transcript.errorOutput .text colored) complaints ∧
        complaints.length = transcript.failed := by
  obtain ⟨lines, hlines⟩ := exists_lines text.toList
  refine ⟨lines, hlines, ?_⟩
  intro transcript replies
  obtain ⟨hreadable, hreplies⟩ := replies_ofBytes hlines failFast
  have hqueries := exists_query_of_mem_replies hlines failFast
  have hsummary : ∀ reply ∈ transcript.replies, ∀ record ∈ reply.summary?, IsOneLine record := by
    intro reply hmem
    obtain ⟨number, query, rfl, hquery⟩ := hqueries reply hmem
    exact Reply.isOneLine_summary? hquery
  have hcomplaint : ∀ reply ∈ transcript.replies, ∀ record ∈ reply.complaint? colored,
      IsOneLine record := by
    intro reply hmem
    obtain ⟨number, query, rfl, hquery⟩ := hqueries reply hmem
    exact Reply.isOneLine_complaint? hquery colored
  refine ⟨hreadable, hreplies,
    ⟨_, transcript.hasRecords_output_json, List.length_map _, ?_, ?_⟩,
    transcript.errorOutput_json colored, ⟨hasRecords_join Reply.output_text hsummary, ?_⟩,
    hasRecords_join (Reply.errorOutput_text · colored) hcomplaint, ?_⟩
  · exact List.forall_mem_map.mpr fun reply _ => reply.space_le_toJson
  · rw [List.forall₂_map_right_iff, List.forall₂_same]
    exact fun reply _ =>
      ⟨_, Json.read?_text reply.hasDistinctKeys_toJson, reply.isToldBy_toJson⟩
  · exact transcript.length_summaries
  · exact transcript.length_complaints colored

end Transcript

end Posl
