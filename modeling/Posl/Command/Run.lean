import Posl.Registry
import Posl.Command.Arguments

/-!
# Running commands

A command line, the standard input and the files that can be read determine what
is written and the exit status.  What is written to the error output is given without
the lines of a log.
-/

namespace Posl

inductive FileContent where
  | bytes (content : List UInt8)
  | directory
  | missing
  deriving DecidableEq, Repr

/-- What a run can see of the system. -/
structure Environment where
  input : List UInt8
  file : String → FileContent
  /-- Whether colours are on. -/
  colored : Bool

/-- What a run leaves behind.  The error output is that of a run without a log. -/
structure RunResult where
  status : Nat
  output : String
  errorOutput : String
  deriving DecidableEq, Repr

inductive FileError where
  | missing
  | directory
  | notText
  deriving DecidableEq, Repr

inductive CommandError where
  | openFailed (file : String)
  | lineUnreadable (line : Nat) (cause : FileError)
  | invalidQueries (failed served : Nat)
  | invalidQuery (error : SyntaxError)
  | readFailed (file : String) (cause : FileError)
  | parseFailed (file : String) (error : SyntaxError)
  deriving DecidableEq, Repr

namespace FileError

def message : FileError → String
  | .missing => "No such file or directory (os error 2)"
  | .directory => "Is a directory (os error 21)"
  | .notText => "stream did not contain valid UTF-8"

end FileError

namespace CommandError

/-- What went wrong, without its cause. -/
def message : CommandError → String
  | .openFailed file => s!"failed to open `{file}`"
  | .lineUnreadable line _ => unreadableMessage line
  | .invalidQueries failed served => s!"{failed} of {served} queries were invalid"
  | .invalidQuery _ => "invalid query"
  | .readFailed file _ => s!"failed to read `{file}`"
  | .parseFailed file _ => s!"failed to parse `{file}`"

def cause? : CommandError → Option String
  | .openFailed _ => some FileError.missing.message
  | .lineUnreadable _ cause | .readFailed _ cause => some cause.message
  | .invalidQuery error | .parseFailed _ error => some error.message
  | .invalidQueries .. => none

/-- The report of an error, with the cause in a paragraph of its own. -/
def report (error : CommandError) : String :=
  match error.cause? with
  | none => s!"Error: {error.message}\n"
  | some cause => s!"Error: {error.message}\n\nCaused by:\n    {cause}\n"

end CommandError

namespace RunResult

/-- A run that ends with an error after some output. -/
def fail (error : CommandError) (output errorOutput : String) : RunResult :=
  { status := 1, output, errorOutput := errorOutput ++ error.report }

end RunResult

namespace Transcript

/-- Why a transcript makes a run fail, if it does. -/
def error? (transcript : Transcript) : Option CommandError :=
  match transcript.unreadable with
  | some line => some (.lineUnreadable line .notText)
  | none =>
    if transcript.failed = 0 then none
    else some (.invalidQueries transcript.failed transcript.served)

end Transcript

namespace Command

def serve (environment : Environment) (format : OutputFormat) (failFast : Bool)
    (bytes : List UInt8) : RunResult :=
  let transcript := Transcript.ofBytes failFast bytes
  let output := transcript.output format
  let errorOutput := transcript.errorOutput format environment.colored
  match transcript.error? with
  | none => { status := 0, output, errorOutput }
  | some error => .fail error output errorOutput

/-- A directory can be opened, but its first line cannot be read. -/
def typeQueries (environment : Environment) (file : Option String) (format : OutputFormat)
    (failFast : Bool) : RunResult :=
  match file with
  | none => serve environment format failFast environment.input
  | some file =>
    match environment.file file with
    | .bytes content => serve environment format failFast content
    | .directory => .fail (.lineUnreadable 1 .directory) "" ""
    | .missing => .fail (.openFailed file) "" ""

def resultText (colored : Bool) : CallResult → String
  | .notBuiltin => Style.paint { color := .yellow } colored "not a built-in"
  | .fails => Style.paint { color := .red } colored "fails"
  | .derives fact => Style.paint { color := .green } colored fact.text

/-- Calls each atom of a query with the standard built-ins, and shows the call
and what comes of it. -/
def evaluate (environment : Environment) (query : String) : RunResult :=
  match Clause.parseQuery query with
  | .error error => .fail (.invalidQuery error) "" ""
  | .ok clause =>
    let (registry, table) := Registry.standard ∅
    let lines := clause.atoms.map fun atom =>
      let result := resultText environment.colored (registry.callAtom table atom)
      s!"{atom.marked clause.variableNames}: {result}\n"
    { status := 0, output := String.join lines, errorOutput := "" }

def readText (environment : Environment) (file : String) : Except FileError String :=
  match environment.file file with
  | .missing => .error .missing
  | .directory => .error .directory
  | .bytes content =>
    match decode? content with
    | some text => .ok text
    | none => .error .notText

/-- Counts the facts and the rules of a program. -/
def checkProgram (environment : Environment) (file : String) : RunResult :=
  match readText environment file with
  | .error cause => .fail (.readFailed file cause) "" ""
  | .ok text =>
    match Clause.parseProgram text with
    | .error error => .fail (.parseFailed file error) "" ""
    | .ok clauses =>
      let facts := clauses.countP Clause.isFact
      let label := Style.paint { color := .green, bold := true } environment.colored "ok:"
      { status := 0
        output :=
          s!"{label} {clauses.length} clauses ({facts} facts, {clauses.length - facts} rules)\n"
        errorOutput := "" }

def run (environment : Environment) : Command → RunResult
  | .typeQuery file format failFast => typeQueries environment file format failFast
  | .builtin query => evaluate environment query
  | .check file => checkProgram environment file

def file? : Command → Option String
  | .typeQuery file _ _ => file
  | .builtin _ => none
  | .check file => some file

def readsInput : Command → Bool
  | .typeQuery file _ _ => file.isNone
  | .builtin _ | .check _ => false

end Command

def versionText : String := "oodrew 0.1.0\n"

/-- A wording of this library's own.  What is specified of a call for help is its exit
status and that the text goes to the output, and not the text. -/
def usageText : String :=
  "\n".intercalate
    ["Usage: oodrew [-v] <COMMAND>", "", "Commands:",
      "  typequery [FILE] [--format json|text] [--fail-fast]",
      "  builtin <QUERY>",
      "  check <FILE>", ""]

namespace Invocation

def run (environment : Environment) : Invocation → RunResult
  | .perform command => command.run environment
  | .help => { status := 0, output := usageText, errorOutput := "" }
  | .version => { status := 0, output := versionText, errorOutput := "" }

end Invocation

namespace UsageError

def report (error : UsageError) : RunResult :=
  { status := 2, output := "", errorOutput := s!"error: {error.message}\n" }

end UsageError

/-- The run of a whole command line. -/
def runArguments (environment : Environment) (arguments : List String) : RunResult :=
  match Invocation.ofArguments arguments with
  | .ok invocation => invocation.run environment
  | .error error => error.report

end Posl
