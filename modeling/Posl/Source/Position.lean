/-!
# Positions in a text

Lines are ended by line feeds alone, and columns count characters.  Both start
at one.
-/

namespace Posl

structure Position where
  line : Nat
  column : Nat
  deriving DecidableEq, Repr, Inhabited

namespace Position

/-- The position right after a piece of text. -/
def after (passed : List Char) : Position where
  line := passed.count '\n' + 1
  column := (passed.reverse.takeWhile (· != '\n')).length + 1

/-- The position in a text at which the given rest of it starts. -/
def ofRest (text rest : List Char) : Position :=
  after (text.take (text.length - rest.length))

@[simp] theorem ofRest_append (passed rest : List Char) :
    ofRest (passed ++ rest) rest = after passed := by
  simp [ofRest]

end Position

end Posl
