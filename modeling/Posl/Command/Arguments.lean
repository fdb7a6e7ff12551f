import Posl.Serve

/-!
# Command lines

The arguments of the program:

* `[-v] typequery [FILE] [--format json|text] [--fail-fast]`
* `[-v] builtin QUERY`
* `[-v] check FILE`
* `help [COMMAND]` and `--version`

Options stand before or after the other arguments.  A double hyphen ends them,
and a lone hyphen is none.  Arguments are taken from left to right, and the first
that settles the matter does so: a wrong one, or one that asks for help or for the
version.

Logging is out of scope.  The verbose option is taken wherever it may stand and changes
nothing of what a command line asks for, and no environment variable is read.  The lines
that a log adds to the error output are no part of a run.
-/

namespace Posl

inductive Command where
  /-- Answers the queries of a file, or of the standard input. -/
  | typeQuery (file : Option String) (format : OutputFormat) (failFast : Bool)
  /-- Evaluates the calls of a query. -/
  | builtin (query : String)
  /-- Counts the clauses of a program. -/
  | check (file : String)
  deriving DecidableEq, Repr

inductive Invocation where
  | perform (command : Command)
  | help
  | version
  deriving DecidableEq, Repr

inductive UsageError where
  | unexpected (argument : String)
  | missingCommand
  | missingArgument (name : String)
  | missingValue (option : String)
  | invalidValue (value option : String)
  | repeated (option : String)
  deriving DecidableEq, Repr

namespace UsageError

/-- A wording of this library's own.  What is specified of a wrong command line is that it
is refused, with which exit status and at which argument, and not how that is said. -/
def message : UsageError → String
  | .unexpected argument => s!"unexpected argument '{argument}'"
  | .missingCommand => "a command is required"
  | .missingArgument name => s!"the argument <{name}> is required"
  | .missingValue option => s!"a value is required for '{option}'"
  | .invalidValue value option => s!"invalid value '{value}' for '{option}'"
  | .repeated option => s!"the argument '{option}' cannot be used multiple times"

end UsageError

/-- An argument by its hyphens. -/
inductive Argument where
  /-- The double hyphen. -/
  | endOfOptions
  /-- Two hyphens and a name, with a value after an equals sign or without. -/
  | long (name : String) (value : Option String)
  /-- A hyphen and letters. -/
  | short (letters : List Char)
  | plain (text : String)
  deriving DecidableEq, Repr

namespace Argument

def longOf (text : List Char) : Argument :=
  match text.dropWhile (· != '=') with
  | [] => .long (.ofList text) none
  | _ :: value => .long (.ofList (text.takeWhile (· != '='))) (some (.ofList value))

def ofString (text : String) : Argument :=
  match text.toList with
  | ['-', '-'] => .endOfOptions
  | '-' :: '-' :: rest => longOf rest
  | ['-'] => .plain text
  | '-' :: rest => .short rest
  | _ => .plain text

end Argument

namespace OutputFormat

def ofName? : String → Option OutputFormat
  | "json" => some .json
  | "text" => some .text
  | _ => none

end OutputFormat

inductive CommandName where
  | typeQuery
  | builtin
  | check
  deriving DecidableEq, Repr

namespace CommandName

def ofString? : String → Option CommandName
  | "typequery" => some .typeQuery
  | "builtin" => some .builtin
  | "check" => some .check
  | _ => none

def operandName : CommandName → String
  | .typeQuery | .check => "INPUT"
  | .builtin => "QUERY"

/-- A query may be empty, but the name of a file may not. -/
def takesEmptyOperand : CommandName → Bool
  | .typeQuery | .check => false
  | .builtin => true

end CommandName

/-- The arguments of a command that have been taken so far. -/
structure Given where
  operand : Option String := none
  format : Option OutputFormat := none
  failFast : Bool := false

namespace Given

def command (given : Given) : CommandName → Except UsageError Command
  | .typeQuery => .ok (.typeQuery given.operand (given.format.getD .json) given.failFast)
  | .builtin =>
    match given.operand with
    | some query => .ok (.builtin query)
    | none => .error (.missingArgument CommandName.builtin.operandName)
  | .check =>
    match given.operand with
    | some file => .ok (.check file)
    | none => .error (.missingArgument CommandName.check.operandName)

def addOperand (given : Given) (name : CommandName) (text : String) : Except UsageError Given :=
  if given.operand.isSome then .error (.unexpected text)
  else if text.isEmpty && !name.takesEmptyOperand then .error (.invalidValue text name.operandName)
  else .ok { given with operand := some text }

def addFormat (given : Given) (value : String) : Except UsageError Given :=
  if given.format.isSome then .error (.repeated "--format")
  else
    match OutputFormat.ofName? value with
    | some format => .ok { given with format := some format }
    | none => .error (.invalidValue value "--format")

def addFailFast (given : Given) : Except UsageError Given :=
  if given.failFast then .error (.repeated "--fail-fast") else .ok { given with failFast := true }

end Given

namespace Invocation

/-- What a cluster of letters asks for, if it asks for anything but logging, which is left
out. -/
def ofLetters (hasVersion : Bool) : List Char → Except UsageError (Option Invocation)
  | [] => .ok none
  | 'v' :: letters => ofLetters hasVersion letters
  | 'h' :: _ => .ok (some .help)
  | 'V' :: letters =>
    if hasVersion then .ok (some .version) else .error (.unexpected (.ofList ('-' :: 'V' :: letters)))
  | letters => .error (.unexpected (.ofList ('-' :: letters)))

/-- The operands after a double hyphen. -/
def ofOperands (name : CommandName) (given : Given) : List String → Except UsageError Invocation
  | [] => .perform <$> given.command name
  | text :: rest => do ofOperands name (← given.addOperand name text) rest

/-- The arguments after a command's name. -/
def ofCommandArguments (name : CommandName) (given : Given) :
    List String → Except UsageError Invocation
  | [] => .perform <$> given.command name
  | text :: rest =>
    match Argument.ofString text with
    | .endOfOptions => ofOperands name given rest
    | .plain text => do ofCommandArguments name (← given.addOperand name text) rest
    | .short letters => do
      match ← ofLetters false letters with
      | some invocation => return invocation
      | none => ofCommandArguments name given rest
    | .long "verbose" none => ofCommandArguments name given rest
    | .long "help" none => .ok .help
    | .long "fail-fast" none =>
      if name = .typeQuery then do ofCommandArguments name (← given.addFailFast) rest
      else .error (.unexpected text)
    | .long "format" (some value) =>
      if name = .typeQuery then do ofCommandArguments name (← given.addFormat value) rest
      else .error (.unexpected text)
    | .long "format" none =>
      if name = .typeQuery then
        match rest with
        | [] => .error (.missingValue text)
        | value :: rest =>
          match Argument.ofString value with
          | .plain value => do ofCommandArguments name (← given.addFormat value) rest
          | _ => .error (.missingValue text)
      else .error (.unexpected text)
    | .long .. => .error (.unexpected text)

/-- The arguments after `help`: the name of a command, or none. -/
def ofHelpArguments : List String → Except UsageError Invocation
  | [] => .ok .help
  | [name] =>
    if name = "help" ∨ (CommandName.ofString? name).isSome then .ok .help
    else .error (.unexpected name)
  | _ :: name :: _ => .error (.unexpected name)

/-- What a command line asks for. -/
def ofArguments : List String → Except UsageError Invocation
  | [] => .error .missingCommand
  | text :: rest =>
    match Argument.ofString text with
    | .plain "help" => ofHelpArguments rest
    | .plain name =>
      match CommandName.ofString? name with
      | some name => ofCommandArguments name {} rest
      | none => .error (.unexpected name)
    | .short letters => do
      match ← ofLetters true letters with
      | some invocation => return invocation
      | none => ofArguments rest
    | .long "verbose" none => ofArguments rest
    | .long "help" none => .ok .help
    | .long "version" none => .ok .version
    | .endOfOptions | .long .. => .error (.unexpected text)

end Invocation

end Posl
