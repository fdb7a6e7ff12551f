import Posl.Lexeme
import Posl.Reader
import Posl.Source

/-!
# The grammar

Readers for terms, atoms and clauses:

* `term := "?" [ident [":" ident]] | "_" | string [":" ident] | number [":" ident]
  | ident "(" [term ("," term)*] ")" | ident [":" ident]`
* `atom := ident ["(" [term "^"] [term ("," term)*] ")"]`
* `clause := atom [":-" atom ("," atom)*] "."`
* `query := [atom ":-"] atom ("," atom)* ["."]`

Blank space may stand before every token of a term, an atom or a clause, but
not inside a number, a string or an identifier, nor after the `?` of a variable.
An opening parenthesis after a name commits the reader to an argument list.
-/

namespace Posl.Grammar

open Reader

/-- Whether a comment that starts here runs to the end of its line.  A carriage
return without a line feed ends no line, and what it follows is no comment. -/
def endsLine : List Char → Bool
  | [] => true
  | '\n' :: _ => true
  | '\r' :: rest => rest.head? == some '\n'
  | _ :: rest => endsLine rest

/-- The text after its leading blanks and comments.  The flag tells whether the
text starts inside a comment. -/
def skipBlankFrom : (inComment : Bool) → List Char → List Char
  | _, [] => []
  | inComment, c :: rest =>
    if c = '\n' ∨ c = '\r' then skipBlankFrom false rest
    else if inComment then skipBlankFrom true rest
    else if c = ' ' ∨ c = '\t' then skipBlankFrom false rest
    else if c = '%' ∧ endsLine rest then skipBlankFrom true rest
    else c :: rest

/-- Drops spaces, tabs, line ends and comments, which run from a percent sign to
the end of the line. -/
def skipBlank (text : List Char) : List Char := skipBlankFrom false text

def blank : Reader Unit := fun text => .ok () (skipBlank text)

def token (c : Char) : Reader Unit := do
  blank
  let _ ← char c

def identifier : Reader String := do
  let first ← satisfy Lexeme.isIdentifierStart
  return .ofList (first :: (← takeWhile Lexeme.isIdentifierRest))

def numeral : Reader String := do
  let sign ← attempt (char '-')
  let whole ← takeWhile1 Char.isDigit
  let fraction ← attempt do
    let _ ← char '.'
    takeWhile1 Char.isDigit
  return .ofList (sign.toList ++ whole ++ (fraction.map ('.' :: ·)).getD [])

/-- The text up to a closing quote, and what follows the quote.  A backslash
takes the next character as it is. -/
def quotedBody : List Char → Option (List Char × List Char)
  | [] => none
  | '"' :: rest => some ([], rest)
  | ['\\'] => none
  | '\\' :: c :: rest => (quotedBody rest).map fun (body, rest) => (c :: body, rest)
  | c :: rest => (quotedBody rest).map fun (body, rest) => (c :: body, rest)

/-- A string in quotes.  One without an end is a failure where it begins. -/
def quoted : Reader String
  | '"' :: rest =>
    match quotedBody rest with
    | some (body, rest) => .ok (.ofList body) rest
    | none => .failure ('"' :: rest)
  | text => .mismatch text

/-- A type after a colon.  A colon before a hyphen is the arrow of a rule and no
part of a term. -/
def typeSuffix : Reader (Option String) := attempt do
  token ':'
  notAhead (char '-')
  blank
  identifier

def variableTerm : Reader SourceTerm := do
  let _ ← char '?'
  match ← attempt identifier with
  | some name => return .var name (← typeSuffix)
  | none => return .anon

def stringTerm : Reader SourceTerm := do
  let text ← quoted
  return .const text (← typeSuffix)

def numberTerm : Reader SourceTerm := do
  let text ← numeral
  return .const text (← typeSuffix)

/-- Arguments in parentheses.  Once the parenthesis is open, nothing but an
argument list can follow. -/
def parenthesized {α : Type} (arguments : Reader α) : Reader α := do
  token '('
  commit do
    let args ← arguments
    token ')'
    return args

/-- The anonymous variable `_`, an expression or an individual. -/
def nameTerm (term : Reader SourceTerm) : Reader SourceTerm := do
  let name ← identifier
  if name = "_" then
    return .anon
  match ← attempt (parenthesized (separated (token ',') term)) with
  | some args => return .expr name args
  | none => return .const name (← typeSuffix)

/-- A term whose expressions are nested less than `depth` levels deep. -/
def termWithin : (depth : Nat) → Reader SourceTerm
  | 0 => fun text => .mismatch text
  | depth + 1 => do
    blank
    orElse variableTerm (orElse stringTerm (orElse numberTerm (nameTerm (termWithin depth))))

/-- A term.  Its expressions cannot be nested deeper than the text is long. -/
def term : Reader SourceTerm := fun text => termWithin (text.length + 1) text

def terms : Reader (List SourceTerm) := separated (token ',') term

def objectIdentifier : Reader (Option SourceTerm) := attempt do
  let oid ← term
  token '^'
  return oid

def atom : Reader SourceAtom := do
  blank
  let predicate ← identifier
  let arguments ← attempt <| parenthesized do
    let oid ← objectIdentifier
    return (oid, ← terms)
  let (oid, args) := arguments.getD (none, [])
  return { predicate, oid, args }

def atoms : Reader (List SourceAtom) := separated1 (token ',') atom

def arrow : Reader Unit := do
  token ':'
  let _ ← char '-'

def clause : Reader (List SourceAtom) := do
  let head ← atom
  let body ← attempt do
    arrow
    atoms
  token '.'
  return head :: body.getD []

/-- A query keeps the head of a rule as its first atom.  Its period may be left
out. -/
def query : Reader (List SourceAtom) := do
  let head ← attempt do
    let head ← atom
    arrow
    return head
  let body ← atoms
  let _ ← attempt (token '.')
  blank
  return head.toList ++ body

def wholeClause : Reader (List SourceAtom) := do
  let atoms ← clause
  blank
  return atoms

/-- Clauses as long as they can be read, and the blank space after them. -/
def program : Reader (List (List SourceAtom)) := do
  let clauses ← many clause
  blank
  return clauses

end Posl.Grammar
