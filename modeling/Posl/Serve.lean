import Posl.Text.Blank
import Posl.Text.Color
import Posl.Text.Lines
import Posl.TypeQuery.Json
import Posl.TypeQuery.Summary

/-!
# Serving type queries

One query a line.  A query that is wrong is answered with what is wrong about it
and stops nothing, unless serving is to end at the first of them.  A line that is
not UTF-8 ends it always.
-/

namespace Posl

inductive OutputFormat where
  /-- A JSON object for each query. -/
  | json
  /-- A line of text for each request, and the errors apart. -/
  | text
  deriving DecidableEq, Repr

structure Reply where
  /-- The number of the query's line, counted from one. -/
  line : Nat
  query : String
  result : Except TypeQueryError TypeQuery

/-- The replies to a text, and the number of the line that could not be read, if
that is how serving ended. -/
structure Transcript where
  replies : List Reply
  unreadable : Option Nat

namespace Reply

def ofQuery (line : Nat) (query : String) : Reply :=
  { line, query, result := TypeQuery.parse query }

def isFailure (reply : Reply) : Bool :=
  match reply.result with
  | .ok _ => false
  | .error _ => true

def toJson (reply : Reply) : Json :=
  .object ([("line", .integer reply.line), ("query", .string reply.query)] ++
    match reply.result with
    | .ok query => [("result", query.toJson)]
    | .error error => [("error", .string error.message)])

/-- What a reply adds to the standard output. -/
def output (format : OutputFormat) (reply : Reply) : String :=
  match format, reply.result with
  | .json, _ => reply.toJson.text ++ "\n"
  | .text, .ok query => s!"{reply.query} => {query.summary}\n"
  | .text, .error _ => ""

/-- What a reply adds to the standard error stream. -/
def errorOutput (format : OutputFormat) (colored : Bool) (reply : Reply) : String :=
  match format, reply.result with
  | .json, _ | .text, .ok _ => ""
  | .text, .error error =>
    let label := Style.paint { color := .red, bold := true } colored "error:"
    s!"{label} line {reply.line}: {error.message}\n"

end Reply

/-- The query on a line: none on one that is blank or starts with a percent
sign. -/
def queryOfLine? (line : String) : Option String :=
  match trim line.toList with
  | [] => none
  | '%' :: _ => none
  | query => some (.ofList query)

namespace Transcript

def add (reply : Reply) (transcript : Transcript) : Transcript :=
  { transcript with replies := reply :: transcript.replies }

def served (transcript : Transcript) : Nat := transcript.replies.length

def failed (transcript : Transcript) : Nat := transcript.replies.countP Reply.isFailure

/-- The replies to lines, the first of which has the given number. -/
def ofLines (failFast : Bool) : (number : Nat) → List (List UInt8) → Transcript
  | _, [] => { replies := [], unreadable := none }
  | number, line :: lines =>
    match decode? line with
    | none => { replies := [], unreadable := some number }
    | some text =>
      match queryOfLine? text with
      | none => ofLines failFast (number + 1) lines
      | some query =>
        let reply := Reply.ofQuery number query
        if failFast && reply.isFailure then { replies := [reply], unreadable := none }
        else (ofLines failFast (number + 1) lines).add reply

/-- The replies to the lines of a text. -/
def ofBytes (failFast : Bool) (bytes : List UInt8) : Transcript :=
  ofLines failFast 1 (splitLines bytes)

def output (transcript : Transcript) (format : OutputFormat) : String :=
  String.join (transcript.replies.map (·.output format))

def errorOutput (transcript : Transcript) (format : OutputFormat) (colored : Bool) : String :=
  String.join (transcript.replies.map (·.errorOutput format colored))

end Transcript

def unreadableMessage (line : Nat) : String := s!"failed to read query line {line}"

end Posl
