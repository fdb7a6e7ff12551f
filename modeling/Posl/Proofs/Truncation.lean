import Posl.Proofs.Serving

/-!
# Serving that ends early

Serving ends at a line that is not UTF-8, and where it is to end at the first
wrong query it ends there too.  Either way it leaves behind what serving the
lines up to that one leaves behind.
-/

namespace Posl

/-! ## Lines that end serving -/

/-- Whether a line asks something that has no answer.  A line that is no text asks
nothing. -/
def FailsOn (line : List UInt8) : Prop := ∃ text, decode? line = some text ∧ asksWrongly text

def Unreadable (line : List UInt8) : Prop := decode? line = none

/-- Whether a line has a property and the lines before it, as many as counted, do
not have it. -/
def FirstAt (holds : List UInt8 → Prop) (lines : List (List UInt8)) (count : Nat) : Prop :=
  ∃ line, lines[count]? = some line ∧ holds line ∧ ∀ other ∈ lines.take count, ¬holds other

theorem Unreadable.not_failsOn {line : List UInt8} (hline : Unreadable line) : ¬FailsOn line := by
  rintro ⟨text, hdecode, -⟩
  rw [Unreadable, hdecode] at hline
  exact Option.some_ne_none text hline

/-- Whether no line after this one is looked at. -/
def EndsServing (failFast : Bool) (line : List UInt8) : Prop :=
  Unreadable line ∨ failFast ∧ FailsOn line

theorem FirstAt.take_succ {holds : List UInt8 → Prop} {lines : List (List UInt8)} {count : Nat}
    (hfirst : FirstAt holds lines count) :
    ∃ line, lines.take (count + 1) = lines.take count ++ [line] ∧ holds line := by
  obtain ⟨line, hline, hholds, -⟩ := hfirst
  exact ⟨line, by rw [List.take_add_one, hline, Option.toList_some], hholds⟩

namespace Transcript

/-- What a line makes of the transcript of the lines behind it. -/
def lead (failFast : Bool) (number : Nat) (line : List UInt8) (behind : Transcript) :
    Transcript :=
  match decode? line with
  | none => { replies := [], unreadable := some number }
  | some text =>
    if asksQuery text then
      let reply := Reply.ofQuery number (trimmed text)
      if failFast && asksWrongly text then { replies := [reply], unreadable := none }
      else behind.add reply
    else behind

/-- The transcript of lines by their first one and the transcript of the others. -/
theorem ofLines_cons_eq_lead (failFast : Bool) (number : Nat) (line : List UInt8)
    (lines : List (List UInt8)) :
    ofLines failFast number (line :: lines) =
      lead failFast number line (ofLines failFast (number + 1) lines) := by
  rw [ofLines, lead]
  cases decode? line with
  | none => rfl
  | some text =>
      dsimp only
      rw [queryOfLine?_eq]
      by_cases hasks : asksQuery text
      · simp only [hasks, if_true, isFailure_ofQuery, asksWrongly, Bool.true_and]
      · simp only [hasks]
        rfl

theorem lead_of_unreadable {line : List UInt8} (hline : Unreadable line) (failFast : Bool)
    (number : Nat) (behind : Transcript) :
    lead failFast number line behind = { replies := [], unreadable := some number } := by
  rw [lead, hline]

theorem lead_of_failsOn {line : List UInt8} (hline : FailsOn line) (number : Nat)
    (behind other : Transcript) :
    lead true number line behind = lead true number line other := by
  obtain ⟨text, hdecode, hwrong⟩ := hline
  have hasks : asksQuery text := by
    rw [asksWrongly, Bool.and_eq_true] at hwrong
    exact hwrong.1
  simp [lead, hdecode, hasks, hwrong]

/-- Only a line that fails is treated in a way of its own where serving ends at failures. -/
theorem lead_of_not_failsOn {line : List UInt8} (hline : ¬FailsOn line) (number : Nat)
    (behind : Transcript) :
    lead true number line behind = lead false number line behind := by
  rw [lead, lead]
  cases hdecode : decode? line with
  | none => rfl
  | some text =>
      have hright : asksWrongly text = false :=
        Bool.eq_false_iff.mpr fun hwrong => hline ⟨text, hdecode, hwrong⟩
      simp [hright]

/-- What stands behind a line that ends serving is of no account. -/
theorem lead_of_endsServing {failFast : Bool} {line : List UInt8}
    (hline : EndsServing failFast line) (number : Nat) (behind other : Transcript) :
    lead failFast number line behind = lead failFast number line other := by
  rcases hline with hunreadable | ⟨rfl, hfails⟩
  · rw [lead_of_unreadable hunreadable, lead_of_unreadable hunreadable]
  · exact lead_of_failsOn hfails number behind other

/-! ## Runs over lines -/

/-- What stands behind a line that ends serving makes no difference. -/
theorem ofLines_append_of_endsServing {failFast : Bool} {lines : List (List UInt8)}
    (hends : ∃ line ∈ lines, EndsServing failFast line) (number : Nat)
    (behind : List (List UInt8)) :
    ofLines failFast number (lines ++ behind) = ofLines failFast number lines := by
  induction lines generalizing number with
  | nil => simp at hends
  | cons line lines ih =>
      rw [List.cons_append, ofLines_cons_eq_lead, ofLines_cons_eq_lead]
      obtain ⟨last, hmem, hlast⟩ := hends
      rcases List.mem_cons.mp hmem with rfl | hmem
      · exact lead_of_endsServing hlast number _ _
      · rw [ih ⟨last, hmem, hlast⟩]

/-- Ending at the first wrong query changes nothing if no line but the last asks
one. -/
theorem ofLines_true_concat {lines : List (List UInt8)} (hlines : ∀ line ∈ lines, ¬FailsOn line)
    (number : Nat) (last : List UInt8) :
    ofLines true number (lines ++ [last]) = ofLines false number (lines ++ [last]) := by
  induction lines generalizing number with
  | nil =>
      rw [List.nil_append, ofLines_cons_eq_lead, ofLines_cons_eq_lead, ofLines, ofLines]
      by_cases hlast : FailsOn last
      · obtain ⟨text, hdecode, hwrong⟩ := hlast
        simp [lead, hdecode, add]
      · exact lead_of_not_failsOn hlast number _
  | cons line lines ih =>
      rw [List.forall_mem_cons] at hlines
      rw [List.cons_append, ofLines_cons_eq_lead, ofLines_cons_eq_lead, ih hlines.2,
        lead_of_not_failsOn hlines.1]

/-- Without a wrong query there is nothing to end at. -/
theorem ofLines_of_not_failsOn {failFast : Bool} {lines : List (List UInt8)}
    (hlines : failFast → ∀ line ∈ lines, ¬FailsOn line) (number : Nat) :
    ofLines failFast number lines = ofLines false number lines := by
  cases failFast with
  | false => rfl
  | true =>
      rcases List.eq_nil_or_concat lines with rfl | ⟨front, last, rfl⟩
      · rfl
      · rw [List.concat_eq_append] at hlines ⊢
        exact ofLines_true_concat
          (fun line hmem => hlines rfl line (List.mem_append_left _ hmem)) number last

/-- Serving gets to the end of lines that can be read. -/
theorem unreadable_ofLines {lines : List (List UInt8)} (hlines : ∀ line ∈ lines, ¬Unreadable line)
    (failFast : Bool) (number : Nat) : (ofLines failFast number lines).unreadable = none := by
  induction lines generalizing number with
  | nil => rfl
  | cons line lines ih =>
      obtain ⟨hline, hlines⟩ := List.forall_mem_cons.mp hlines
      obtain ⟨text, hdecode⟩ := Option.ne_none_iff_exists'.mp hline
      have hrest := ih hlines (number + 1)
      rw [ofLines_cons_eq_lead, lead, hdecode]
      dsimp only
      split
      · split
        · rfl
        · exact hrest
      · exact hrest

/-- At the first line that cannot be read serving leaves behind what it had so
far, and the number of the line. -/
theorem ofLines_concat_unreadable {lines : List (List UInt8)}
    (hlines : ∀ line ∈ lines, ¬Unreadable line) {last : List UInt8} (hlast : Unreadable last)
    (number : Nat) :
    ofLines false number (lines ++ [last]) =
      { ofLines false number lines with unreadable := some (number + lines.length) } := by
  rw [ofLines_append number [last] (unreadable_ofLines hlines false number),
    ofLines_cons_eq_lead, lead_of_unreadable hlast, append, List.append_nil]

/-! ## Counts -/

theorem failed_lead_of_failsOn {line : List UInt8} (hline : FailsOn line) (number : Nat)
    (behind : Transcript) : (lead true number line behind).failed = 1 := by
  obtain ⟨text, hdecode, hwrong⟩ := hline
  have hasks : asksQuery text ∧ (TypeQuery.parse (trimmed text)).isOk = false := by
    simpa [asksWrongly] using hwrong
  simp [lead, hdecode, hasks, hwrong, failed, isFailure_ofQuery]

theorem failed_lead_of_not_failsOn {line : List UInt8} (hfails : ¬FailsOn line)
    (hreadable : ¬Unreadable line) (failFast : Bool) (number : Nat) (behind : Transcript) :
    (lead failFast number line behind).failed = behind.failed := by
  obtain ⟨text, hdecode⟩ := Option.ne_none_iff_exists'.mp hreadable
  have hright : asksWrongly text = false :=
    Bool.eq_false_iff.mpr fun hwrong => hfails ⟨text, hdecode, hwrong⟩
  by_cases hasks : asksQuery text
  · have hok : (TypeQuery.parse (trimmed text)).isOk = true := by
      simpa [asksWrongly, hasks] using hright
    simp [lead, hdecode, hasks, hright, failed, add, isFailure_ofQuery, hok]
  · simp [lead, hdecode, hasks]

theorem failed_ofLines_true_le (number : Nat) (lines : List (List UInt8)) :
    (ofLines true number lines).failed ≤ 1 := by
  induction lines generalizing number with
  | nil => exact Nat.zero_le 1
  | cons line lines ih =>
      rw [ofLines_cons_eq_lead]
      by_cases hfails : FailsOn line
      · exact Nat.le_of_eq (failed_lead_of_failsOn hfails number _)
      by_cases hunreadable : Unreadable line
      · rw [lead_of_unreadable hunreadable]
        exact Nat.zero_le 1
      · rw [failed_lead_of_not_failsOn hfails hunreadable]
        exact ih (number + 1)

/-- Where some line fails, serving that ends at failures counts one of them. -/
theorem failed_ofLines_true {lines : List (List UInt8)}
    (hreadable : ∀ line ∈ lines, ¬Unreadable line) (hfails : ∃ line ∈ lines, FailsOn line)
    (number : Nat) : (ofLines true number lines).failed = 1 := by
  induction lines generalizing number with
  | nil => simp at hfails
  | cons line lines ih =>
      obtain ⟨hline, hlines⟩ := List.forall_mem_cons.mp hreadable
      rw [ofLines_cons_eq_lead]
      by_cases hfirst : FailsOn line
      · exact failed_lead_of_failsOn hfirst number _
      · rw [failed_lead_of_not_failsOn hfirst hline]
        apply ih hlines
        obtain ⟨other, hmem, hother⟩ := hfails
        rcases List.mem_cons.mp hmem with rfl | hmem
        · exact absurd hother hfirst
        · exact ⟨other, hmem, hother⟩

end Transcript

/-! ## Pieces of a text -/

/-- The bytes up to the end of the last line counted, the line feed included. -/
def throughLines : (count : Nat) → List UInt8 → List UInt8
  | 0, _ => []
  | _ + 1, [] => []
  | count + 1, byte :: rest =>
    byte :: throughLines (if byte = 10 then count else count + 1) rest

theorem exists_append_throughLines (count : Nat) (bytes : List UInt8) :
    ∃ rest, bytes = throughLines count bytes ++ rest := by
  induction bytes generalizing count with
  | nil => cases count <;> exact ⟨[], rfl⟩
  | cons byte bytes ih =>
      cases count with
      | zero => exact ⟨byte :: bytes, rfl⟩
      | succ count =>
          obtain ⟨rest, hrest⟩ := ih (if byte = 10 then count else count + 1)
          exact ⟨rest, by rw [throughLines, List.cons_append, ← hrest]⟩

/-- The lines of such a piece are the first ones of the text. -/
theorem splitLinesFrom_throughLines (count : Nat) (reversed bytes : List UInt8) :
    splitLinesFrom reversed (throughLines (count + 1) bytes) =
      (splitLinesFrom reversed bytes).take (count + 1) := by
  induction bytes generalizing count reversed with
  | nil =>
      rw [throughLines, splitLinesFrom]
      split <;> simp
  | cons byte rest ih =>
      rw [throughLines, splitLinesFrom, splitLinesFrom]
      by_cases hfeed : byte = 10
      · rw [if_pos hfeed, if_pos hfeed, if_pos hfeed, List.take_succ_cons]
        cases count with
        | zero => simp [throughLines, splitLinesFrom]
        | succ count => rw [ih]
      · rw [if_neg hfeed, if_neg hfeed, if_neg hfeed, ih]

/-- Cutting a text off behind a line leaves the lines up to there. -/
theorem splitLines_throughLines (count : Nat) (bytes : List UInt8) :
    splitLines (throughLines count bytes) = (splitLines bytes).take count := by
  cases count with
  | zero => rw [throughLines, List.take_zero, splitLines, splitLinesFrom]; rfl
  | succ count => exact splitLinesFrom_throughLines count [] bytes

/-- Behind the end of a line, other lines may be put in place of those that follow. -/
theorem splitLinesFrom_throughLines_append (count : Nat) (reversed bytes other : List UInt8)
    (hcount : count + 1 < (splitLinesFrom reversed bytes).length) :
    splitLinesFrom reversed (throughLines (count + 1) bytes ++ other) =
      (splitLinesFrom reversed bytes).take (count + 1) ++ splitLines other := by
  induction bytes generalizing count reversed with
  | nil =>
      rw [splitLinesFrom] at hcount
      split at hcount <;> simp at hcount
  | cons byte rest ih =>
      rw [splitLinesFrom] at hcount
      rw [throughLines, List.cons_append, splitLinesFrom, splitLinesFrom]
      by_cases hfeed : byte = 10
      · rw [if_pos hfeed] at hcount
        rw [if_pos hfeed, if_pos hfeed, if_pos hfeed, List.take_succ_cons]
        cases count with
        | zero => simp [throughLines, splitLines]
        | succ count =>
            rw [ih count [] (by simpa using hcount), List.cons_append]
      · rw [if_neg hfeed] at hcount
        rw [if_neg hfeed, if_neg hfeed, if_neg hfeed, ih count _ hcount]

/-- Where a line follows the piece, the piece ends with a line feed, so that other
text put behind it has lines of its own. -/
theorem splitLines_throughLines_append {count : Nat} {bytes : List UInt8}
    (hcount : count < (splitLines bytes).length) (other : List UInt8) :
    splitLines (throughLines count bytes ++ other) =
      (splitLines bytes).take count ++ splitLines other := by
  cases count with
  | zero => rw [throughLines, List.take_zero, List.nil_append, List.nil_append]
  | succ count => exact splitLinesFrom_throughLines_append count [] bytes other hcount

/-! ## What is left behind -/

/-- What serving leaves behind: what is written to the two streams, and the numbers
of queries and of wrong ones, or what is said of the line that could not be read. -/
structure Served where
  output : String
  errorOutput : String
  counts : Except String (Nat × Nat)

def Transcript.leaves (format : OutputFormat) (colored : Bool) (transcript : Transcript) :
    Served where
  output := transcript.output format
  errorOutput := transcript.errorOutput format colored
  counts :=
    match transcript.unreadable with
    | some line => .error (unreadableMessage line)
    | none => .ok (transcript.served, transcript.failed)

def serve (format : OutputFormat) (colored failFast : Bool) (bytes : List UInt8) : Served :=
  (Transcript.ofBytes failFast bytes).leaves format colored

theorem FirstAt.lt_length {holds : List UInt8 → Prop} {lines : List (List UInt8)} {count : Nat}
    (hfirst : FirstAt holds lines count) : count < lines.length := by
  obtain ⟨line, hline, -⟩ := hfirst
  exact (List.getElem?_eq_some_iff.mp hline).1

theorem FirstAt.not_before {holds : List UInt8 → Prop} {lines : List (List UInt8)} {count : Nat}
    (hfirst : FirstAt holds lines count) : ∀ line ∈ lines.take count, ¬holds line := by
  obtain ⟨-, -, -, hbefore⟩ := hfirst
  exact hbefore

namespace Transcript

theorem ofBytes_throughLines (failFast : Bool) (count : Nat) (bytes : List UInt8) :
    ofBytes failFast (throughLines count bytes) =
      ofLines failFast 1 ((splitLines bytes).take count) := by
  rw [ofBytes, splitLines_throughLines]

/-- A run that is to end at the first wrong query is the run on the text up to
there. -/
theorem ofBytes_true_of_first {bytes : List UInt8} {count : Nat}
    (hfirst : FirstAt FailsOn (splitLines bytes) count) :
    ofBytes true bytes = ofBytes false (throughLines (count + 1) bytes) := by
  obtain ⟨line, htake, hline⟩ := hfirst.take_succ
  have hends : ∃ line ∈ (splitLines bytes).take (count + 1), EndsServing true line :=
    ⟨line, by simp [htake], .inr ⟨rfl, hline⟩⟩
  calc
    ofBytes true bytes = ofLines true 1 ((splitLines bytes).take (count + 1)) := by
      rw [ofBytes, ← ofLines_append_of_endsServing hends 1, List.take_append_drop]
    _ = ofLines false 1 ((splitLines bytes).take (count + 1)) := by
      rw [htake, ofLines_true_concat hfirst.not_before]
    _ = ofBytes false (throughLines (count + 1) bytes) :=
      (ofBytes_throughLines false (count + 1) bytes).symm

/-- A run that gets to a line that cannot be read is the run on the text before
it, but for the error. -/
theorem ofBytes_of_unreadable {bytes : List UInt8} {count : Nat}
    (hfirst : FirstAt Unreadable (splitLines bytes) count) {failFast : Bool}
    (hreached : failFast → ∀ line ∈ (splitLines bytes).take count, ¬FailsOn line) :
    ofBytes failFast bytes =
      { ofBytes failFast (throughLines count bytes) with unreadable := some (count + 1) } := by
  obtain ⟨line, htake, hline⟩ := hfirst.take_succ
  have hends : ∃ line ∈ (splitLines bytes).take (count + 1), EndsServing failFast line :=
    ⟨line, by simp [htake], .inl hline⟩
  have hlength : ((splitLines bytes).take count).length = count :=
    List.length_take_of_le (Nat.le_of_lt hfirst.lt_length)
  have hnone : failFast → ∀ other ∈ (splitLines bytes).take count ++ [line], ¬FailsOn other := by
    intro hfast
    rw [List.forall_mem_append, List.forall_mem_singleton]
    exact ⟨hreached hfast, hline.not_failsOn⟩
  calc
    ofBytes failFast bytes = ofLines failFast 1 ((splitLines bytes).take count ++ [line]) := by
      rw [← htake, ofBytes, ← ofLines_append_of_endsServing hends 1, List.take_append_drop]
    _ = { ofLines false 1 ((splitLines bytes).take count) with
          unreadable := some (count + 1) } := by
      rw [ofLines_of_not_failsOn hnone, ofLines_concat_unreadable hfirst.not_before hline, hlength,
        Nat.add_comm]
    _ = { ofBytes failFast (throughLines count bytes) with unreadable := some (count + 1) } := by
      rw [ofBytes_throughLines, ofLines_of_not_failsOn hreached]

/-- A run that ends at a wrong query looks at no line behind it. -/
theorem ofBytes_throughLines_append {bytes : List UInt8} {count : Nat}
    (hcount : count < (splitLines bytes).length)
    (hfails : ∃ line ∈ (splitLines bytes).take count, FailsOn line) (other : List UInt8) :
    ofBytes true (throughLines count bytes ++ other) = ofBytes true (throughLines count bytes) := by
  obtain ⟨line, hmem, hline⟩ := hfails
  have hends : ∃ line ∈ (splitLines bytes).take count, EndsServing true line :=
    ⟨line, hmem, .inr ⟨rfl, hline⟩⟩
  rw [ofBytes_throughLines, ofBytes, splitLines_throughLines_append hcount,
    ofLines_append_of_endsServing hends]

theorem counts_leaves_of_readable {transcript : Transcript}
    (hreadable : transcript.unreadable = none) (format : OutputFormat) (colored : Bool) :
    (transcript.leaves format colored).counts = .ok (transcript.served, transcript.failed) := by
  rw [leaves, hreadable]

end Transcript

/-- A run that is to end at the first wrong query is the run on the text cut off
behind that query, and a run that comes to an unreadable line is the run on the text
cut off before that line, but for the error in place of the counts.  Where a wrong
query comes first, the unreadable line is not looked at. -/
theorem serve_truncates (format : OutputFormat) (colored : Bool) (bytes : List UInt8) :
    let lines := splitLines bytes
    let run := serve format colored
    (∀ count, FirstAt FailsOn lines count →
      run true bytes = run false (throughLines (count + 1) bytes)) ∧
    ((∀ line ∈ lines, ¬FailsOn line) → run true bytes = run false bytes) ∧
    (∀ served failed, (run true bytes).counts = .ok (served, failed) → failed ≤ 1) ∧
    ∀ count, FirstAt Unreadable lines count →
      let before := throughLines count bytes
      (∀ failFast : Bool, (failFast → ∀ line ∈ lines.take count, ¬FailsOn line) →
        run failFast bytes = { run failFast before with
          counts := .error ("failed to read query line " ++ toString (count + 1)) } ∧
        ∃ counts, (run failFast before).counts = .ok counts) ∧
      ((∃ line ∈ lines.take count, FailsOn line) →
        (∀ other, run true (before ++ other) = run true bytes) ∧
        ∃ served, (run true bytes).counts = .ok (served, 1)) := by
  intro lines run
  refine ⟨?_, ?_, ?_, ?_⟩
  · intro count hfirst
    exact congrArg (Transcript.leaves format colored) (Transcript.ofBytes_true_of_first hfirst)
  · intro hnone
    exact congrArg (Transcript.leaves format colored)
      (Transcript.ofLines_of_not_failsOn (fun _ => hnone) 1)
  · intro served failed hcounts
    cases hunreadable : (Transcript.ofBytes true bytes).unreadable with
    | some line => simp [run, serve, Transcript.leaves, hunreadable] at hcounts
    | none =>
        have hread := Transcript.counts_leaves_of_readable hunreadable format colored
        obtain ⟨-, rfl⟩ := Prod.mk.inj (Except.ok.inj (hread.symm.trans hcounts))
        exact Transcript.failed_ofLines_true_le 1 lines
  · intro count hfirst before
    have hreadable : ∀ failFast, (Transcript.ofBytes failFast before).unreadable = none := by
      intro failFast
      rw [Transcript.ofBytes_throughLines]
      exact Transcript.unreadable_ofLines hfirst.not_before failFast 1
    refine ⟨fun failFast hreached => ⟨?_, ?_⟩, fun hfails => ?_⟩
    · exact congrArg (Transcript.leaves format colored)
        (Transcript.ofBytes_of_unreadable hfirst hreached)
    · exact ⟨_, Transcript.counts_leaves_of_readable (hreadable failFast) format colored⟩
    · have hbefore : ∀ other, run true (before ++ other) = run true before := fun other =>
        congrArg (Transcript.leaves format colored)
          (Transcript.ofBytes_throughLines_append hfirst.lt_length hfails other)
      have hwhole : run true bytes = run true before := by
        obtain ⟨rest, hrest⟩ := exists_append_throughLines count bytes
        rw [hrest]
        exact hbefore rest
      refine ⟨fun other => (hbefore other).trans hwhole.symm,
        (Transcript.ofBytes true before).served, ?_⟩
      have hfailed : (Transcript.ofBytes true before).failed = 1 := by
        rw [Transcript.ofBytes_throughLines]
        exact Transcript.failed_ofLines_true hfirst.not_before hfails 1
      rw [hwhole, ← hfailed]
      exact Transcript.counts_leaves_of_readable (hreadable true) format colored

/-- A request, a query that is wrong and a line that is no text. -/
def spoiledText : List UInt8 := encode "lub(?X, a)\nlub()\n".toList ++ [255, 10]

theorem splitLines_spoiledText :
    splitLines spoiledText = [encode "lub(?X, a)".toList, encode "lub()".toList, [255]] := by
  decide +kernel

theorem failsOn_encode_iff (line : String) : FailsOn (encode line.toList) ↔ asksWrongly line := by
  simp [FailsOn, decode?_encode]

/-- A text in which one line fails and a later one is no text, served in both ways. -/
theorem serve_spoiledText :
    serve .text false true spoiledText =
        serve .text false false (throughLines 2 spoiledText) ∧
      serve .text false false spoiledText =
        { serve .text false false (throughLines 2 spoiledText) with
          counts := .error "failed to read query line 3" } ∧
      (∀ other, serve .text false true (throughLines 2 spoiledText ++ other) =
        serve .text false true spoiledText) ∧
      ∃ served, (serve .text false true spoiledText).counts = .ok (served, 1) := by
  have hright : ¬FailsOn (encode "lub(?X, a)".toList) := by
    rw [failsOn_encode_iff]
    decide +kernel
  have hwrong : FailsOn (encode "lub()".toList) := by
    rw [failsOn_encode_iff]
    decide +kernel
  have hread : ∀ line : String, ¬Unreadable (encode line.toList) := by
    simp [Unreadable, decode?_encode]
  have hunreadable : Unreadable [255] := by
    rw [Unreadable]
    decide +kernel
  have hlines := splitLines_spoiledText
  have hfails : FirstAt FailsOn (splitLines spoiledText) 1 :=
    ⟨encode "lub()".toList, by rw [hlines]; rfl, hwrong, by simpa [hlines] using hright⟩
  have hends : FirstAt Unreadable (splitLines spoiledText) 2 := by
    refine ⟨[255], by rw [hlines]; rfl, hunreadable, ?_⟩
    rw [hlines]
    exact List.forall_mem_cons.mpr ⟨hread _, List.forall_mem_singleton.mpr (hread _)⟩
  obtain ⟨hfast, -, -, hstop⟩ := serve_truncates .text false spoiledText
  obtain ⟨hreached, hpassed⟩ := hstop 2 hends
  have hcut := (hreached false (by simp)).1
  refine ⟨hfast 1 hfails, hcut, hpassed ⟨_, ?_, hwrong⟩⟩
  rw [hlines]
  simp

end Posl
