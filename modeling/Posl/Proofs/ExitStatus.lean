import Posl.Command.Run
import Posl.Proofs.Truncation

/-!
# The exit status of serving

Serving succeeds where every line can be read and every query has an answer.  In which
format the replies are written, and whether serving ends at the first wrong query, is of no
account for that.  What is said at the end is said in the same words in both formats.
-/

namespace Posl

/-! ## Lines that can be served -/

/-- A line that can be read, and that asks nothing or something that has an answer. -/
def IsServable (line : List UInt8) : Prop :=
  ∃ text, decode? line = some text ∧
    (asksQuery text → ∃ request, TypeQuery.parse (trimmed text) = .ok request)

theorem asksWrongly_eq_false_iff {text : String} :
    asksWrongly text = false ↔
      (asksQuery text → ∃ request, TypeQuery.parse (trimmed text) = .ok request) := by
  rw [asksWrongly]
  cases TypeQuery.parse (trimmed text) with
  | ok request => simp [Except.isOk, Except.toBool]
  | error error => simp [Except.isOk, Except.toBool]

theorem isServable_iff {line : List UInt8} :
    IsServable line ↔ ¬Unreadable line ∧ ¬FailsOn line := by
  simp only [IsServable, Unreadable, FailsOn, ← asksWrongly_eq_false_iff]
  cases decode? line with
  | none => simp
  | some text => simp

namespace Transcript

/-! ## Transcripts without an error -/

theorem error?_eq_none_iff {transcript : Transcript} :
    transcript.error? = none ↔ transcript.unreadable = none ∧ transcript.failed = 0 := by
  rw [error?]
  cases transcript.unreadable with
  | some line => simp
  | none => simp

theorem failed_lead_ne_zero {line : List UInt8} (hfails : FailsOn line) (failFast : Bool)
    (number : Nat) (behind : Transcript) : (lead failFast number line behind).failed ≠ 0 := by
  cases failFast with
  | true =>
      rw [failed_lead_of_failsOn hfails]
      exact Nat.one_ne_zero
  | false =>
      obtain ⟨text, hdecode, hwrong⟩ := hfails
      have hasks : asksQuery text ∧ (TypeQuery.parse (trimmed text)).isOk = false := by
        simpa [asksWrongly] using hwrong
      simp [lead, hdecode, hasks, failed, add, isFailure_ofQuery]

/-- A line that can be served lets serving go on, so an unreadable line behind it is
found. -/
theorem unreadable_lead_of_isServable {line : List UInt8} (hline : IsServable line)
    (failFast : Bool) (number : Nat) (behind : Transcript) :
    (lead failFast number line behind).unreadable = behind.unreadable := by
  obtain ⟨text, hdecode, hanswer⟩ := hline
  rw [lead, hdecode]
  dsimp only
  rw [asksWrongly_eq_false_iff.mpr hanswer, Bool.and_false]
  split <;> rfl

/-- A line that is not servable comes to an error, whatever is behind it; a servable one
leaves the matter to what is behind it. -/
theorem error?_lead_eq_none_iff (failFast : Bool) (number : Nat) (line : List UInt8)
    (behind : Transcript) :
    (lead failFast number line behind).error? = none ↔
      IsServable line ∧ behind.error? = none := by
  rw [error?_eq_none_iff, error?_eq_none_iff]
  by_cases hunreadable : Unreadable line
  · simp [lead_of_unreadable hunreadable, isServable_iff, hunreadable]
  by_cases hfails : FailsOn line
  · simp [failed_lead_ne_zero hfails, isServable_iff, hfails]
  · have hline : IsServable line := isServable_iff.mpr ⟨hunreadable, hfails⟩
    simp [unreadable_lead_of_isServable hline, failed_lead_of_not_failsOn hfails hunreadable, hline]

/-- Whether or not serving is to end early, it comes to an error exactly where some line is
not servable. -/
theorem error?_ofLines_eq_none_iff (failFast : Bool) (number : Nat) (lines : List (List UInt8)) :
    (ofLines failFast number lines).error? = none ↔ ∀ line ∈ lines, IsServable line := by
  induction lines generalizing number with
  | nil => simp [ofLines, error?, failed]
  | cons line lines ih =>
      rw [ofLines_cons_eq_lead, error?_lead_eq_none_iff, ih, List.forall_mem_cons]

/-- What is said at the end of a run, which is nothing if it went well. -/
def closing (transcript : Transcript) : String :=
  (transcript.error?.map CommandError.report).getD ""

/-- There is nothing to say at the end of a run only where there is no error. -/
theorem closing_eq_empty_iff {transcript : Transcript} :
    transcript.closing = "" ↔ transcript.error? = none := by
  rw [closing]
  cases transcript.error? with
  | none => simp
  | some error =>
      have hend : toString "\n" ≠ "" := by decide
      simp only [Option.map_some, Option.getD_some, reduceCtorEq, iff_false]
      rw [CommandError.report]
      cases error.cause? <;> simp [hend]

end Transcript

/-! ## Runs -/

/-- The input of a serving command: the standard input, or a file that can be read. -/
inductive Environment.Supplies (environment : Environment) : Option String → List UInt8 → Prop
  | input : Supplies environment none environment.input
  | file {name content} : environment.file name = .bytes content →
      Supplies environment (some name) content

namespace Command

/-- A run of a serving command is told by its transcript: the status by whether there is an
error, and the two outputs. -/
theorem serve_eq (environment : Environment) (format : OutputFormat) (failFast : Bool)
    (bytes : List UInt8) :
    let transcript := Transcript.ofBytes failFast bytes
    serve environment format failFast bytes =
      { status := if transcript.error? = none then 0 else 1
        output := transcript.output format
        errorOutput :=
          transcript.errorOutput format environment.colored ++ transcript.closing } := by
  intro transcript
  rw [serve, Transcript.closing]
  cases herror : transcript.error? with
  | none => simp [transcript]
  | some error => simp [transcript, RunResult.fail]

theorem run_typeQuery_eq {environment : Environment} {file : Option String}
    {content : List UInt8} (hinput : environment.Supplies file content) (format : OutputFormat)
    (failFast : Bool) :
    run environment (.typeQuery file format failFast) =
      serve environment format failFast content := by
  cases hinput with
  | input => rfl
  | file hcontent => rw [run, typeQueries, hcontent]

end Command

/-- Whether a command line asks to serve an input in some format, ending at the first wrong
query or not.  It may ask for a log as well, whose lines are left out of the error output
of a run. -/
def AsksToServe (file : Option String) (format : OutputFormat) (failFast : Bool)
    (arguments : List String) : Prop :=
  Invocation.ofArguments arguments = .ok (.perform (.typeQuery file format failFast))

theorem runArguments_eq_serve {environment : Environment} {file : Option String}
    {content : List UInt8} (hinput : environment.Supplies file content) {format : OutputFormat}
    {failFast : Bool} {arguments : List String}
    (hasks : AsksToServe file format failFast arguments) :
    runArguments environment arguments =
      Command.serve environment format failFast content := by
  rw [runArguments, hasks]
  exact Command.run_typeQuery_eq hinput format failFast

/-- The exit status of serving is decided by the lines of the input alone. Of two runs that
differ in the format only, the one in text says at its end, behind what it says of single
queries, all that the one in JSON says there. The lines of a log are left out, wherever a
command line asks for one. -/
theorem exit_status_by_input {environment : Environment} {file : Option String}
    {content : List UInt8} (hinput : environment.Supplies file content) :
    let run := runArguments environment
    (∀ format failFast arguments, AsksToServe file format failFast arguments →
      ((run arguments).status = 0 ↔ ∀ line ∈ splitLines content, IsServable line) ∧
      ((run arguments).status = 1 ↔ ¬∀ line ∈ splitLines content, IsServable line)) ∧
    ∀ failFast inJson inText, AsksToServe file .json failFast inJson →
      AsksToServe file .text failFast inText →
      let transcript := Transcript.ofBytes failFast content
      (run inJson).errorOutput = transcript.closing ∧
      (run inText).errorOutput =
        transcript.errorOutput .text environment.colored ++ transcript.closing ∧
      (transcript.closing = "" ↔ ∀ line ∈ splitLines content, IsServable line) := by
  intro run
  have hdecides : ∀ failFast, (Transcript.ofBytes failFast content).error? = none ↔
      ∀ line ∈ splitLines content, IsServable line :=
    fun failFast => Transcript.error?_ofLines_eq_none_iff failFast 1 (splitLines content)
  constructor
  · intro format failFast arguments hasks
    have hrun := runArguments_eq_serve hinput hasks
    rw [← hdecides failFast]
    simp only [run, hrun, Command.serve_eq]
    split <;> simp_all
  · intro failFast inJson inText hjson htext transcript
    have hrunJson := runArguments_eq_serve hinput hjson
    have hrunText := runArguments_eq_serve hinput htext
    refine ⟨?_, ?_, Transcript.closing_eq_empty_iff.trans (hdecides failFast)⟩
    · simp only [run, hrunJson, Command.serve_eq, Transcript.errorOutput_json, String.empty_append]
      rfl
    · simp only [run, hrunText, Command.serve_eq]
      rfl

/-- A wrong query stands before a line that is no text.  Serving that ends at the query does
not come to that line, but has the same exit status. -/
theorem exit_status_spoiledText :
    let environment : Environment :=
      { input := []
        file := fun name => if name = "queries" then .bytes spoiledText else .missing
        colored := true }
    let run := runArguments environment
    let closing := "Error: 1 of 2 queries were invalid\n"
    environment.Supplies (some "queries") spoiledText ∧
      AsksToServe (some "queries") .json false ["typequery", "queries"] ∧
      AsksToServe (some "queries") .json true ["typequery", "queries", "--fail-fast"] ∧
      AsksToServe (some "queries") .text true
        ["typequery", "--fail-fast", "--format", "text", "queries"] ∧
      (run ["typequery", "queries"]).status = 1 ∧
      (run ["typequery", "queries", "--fail-fast"]).status = 1 ∧
      (run ["typequery", "--fail-fast", "--format", "text", "queries"]).status = 1 ∧
      (run ["typequery", "queries", "--fail-fast"]).errorOutput = closing ∧
      ∃ records, (run ["typequery", "--fail-fast", "--format", "text", "queries"]).errorOutput =
        records ++ closing := by
  intro environment run closing
  have hinput : environment.Supplies (some "queries") spoiledText :=
    .file (by simp [environment])
  have hslow : AsksToServe (some "queries") .json false ["typequery", "queries"] := rfl
  have hjson : AsksToServe (some "queries") .json true
      ["typequery", "queries", "--fail-fast"] := rfl
  have htext : AsksToServe (some "queries") .text true
      ["typequery", "--fail-fast", "--format", "text", "queries"] := rfl
  have hunservable : ¬∀ line ∈ splitLines spoiledText, IsServable line := by
    intro hservable
    have hunreadable : ¬Unreadable [255] :=
      (isServable_iff.mp (hservable [255] (by simp [splitLines_spoiledText]))).1
    exact hunreadable (by rw [Unreadable]; decide +kernel)
  have hclosing : (Transcript.ofBytes true spoiledText).closing = closing := by decide +kernel
  obtain ⟨hstatus, herrors⟩ := exit_status_by_input hinput
  obtain ⟨hinJson, hinText, -⟩ := herrors true _ _ hjson htext
  rw [hclosing] at hinJson hinText
  exact ⟨hinput, hslow, hjson, htext, (hstatus _ _ _ hslow).2.mpr hunservable,
    (hstatus _ _ _ hjson).2.mpr hunservable, (hstatus _ _ _ htext).2.mpr hunservable,
    hinJson, _, hinText⟩

end Posl
