import Posl.Source.Grammar
import Posl.Source.Position

/-!
# Reading clauses from text

The three entry points: one query, one clause, and a program of any number of
clauses.  Each reads the whole text or says where it stopped.
-/

namespace Posl

/-- What a text was expected to hold. -/
inductive Expectation where
  | query
  | clause
  deriving DecidableEq, Repr

inductive SyntaxError where
  /-- The text holds blank space and comments only. -/
  | empty
  /-- Nothing of the expected form can be read, for what stands at the position. -/
  | expected (what : Expectation) (position : Position)
  /-- What was read ends at the position, before the text does. -/
  | unexpected (what : Expectation) (position : Position)
  deriving DecidableEq, Repr

namespace Expectation

def text : Expectation → String
  | .query => "a query: `pred(args).`"
  | .clause => "a clause: `head.` or `head :- body.`"

end Expectation

namespace SyntaxError

def position? : SyntaxError → Option Position
  | .empty => none
  | .expected _ position | .unexpected _ position => some position

def located (position : Position) (problem : String) : String :=
  s!"parse error on line {position.line}, column {position.column}: {problem}"

def message : SyntaxError → String
  | .empty => "empty input: expected at least one atom"
  | .expected what position => located position s!"expected {what.text}"
  | .unexpected what position => located position s!"unexpected input; expected {what.text}"

end SyntaxError

namespace Reader

/-- The value of a reader that takes the whole text. -/
def readAll {α : Type} (reader : Reader α) (what : Expectation) (text : List Char) :
    Except SyntaxError α :=
  match reader text with
  | .ok value [] => .ok value
  | .ok _ rest => .error (.unexpected what (.ofRest text rest))
  | .mismatch rest | .failure rest => .error (.expected what (.ofRest text rest))

end Reader

namespace Grammar

def readOne (reader : Reader (List SourceAtom)) (what : Expectation) (text : String) :
    Except SyntaxError (List SourceAtom) :=
  if skipBlank text.toList = [] then .error .empty else reader.readAll what text.toList

def readQuery (text : String) : Except SyntaxError (List SourceAtom) := readOne query .query text

def readClause (text : String) : Except SyntaxError (List SourceAtom) :=
  readOne wholeClause .clause text

def readProgram (text : String) : Except SyntaxError (List (List SourceAtom)) :=
  program.readAll .clause text.toList

end Grammar

namespace Clause

/-- A query such as `lub(?X, a, b).`, whose period may be left out.  The atoms
of a rule are kept one and all, with the head first. -/
def parseQuery (text : String) : Except SyntaxError Clause :=
  (Grammar.readQuery text).map ofSource

/-- One fact or rule, with its period. -/
def parse (text : String) : Except SyntaxError Clause := (Grammar.readClause text).map ofSource

/-- Facts and rules one after the other, or none at all.  Each has variables of
its own. -/
def parseProgram (text : String) : Except SyntaxError (List Clause) :=
  (Grammar.readProgram text).map (·.map ofSource)

end Clause

end Posl
