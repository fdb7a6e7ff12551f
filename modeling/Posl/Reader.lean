/-!
# Readers

A reader takes a value off the front of a text.  Where it cannot, it says how
much of the text was left, and whether another reading may be tried from the
start: a mismatch is undone by `attempt` and `orElse`, a failure is final.
-/

namespace Posl

inductive Outcome (α : Type) where
  | ok (value : α) (rest : List Char)
  /-- Nothing of this form stands here.  The text from the point of the mismatch on. -/
  | mismatch (rest : List Char)
  /-- The text is wrong, whatever else is tried.  The text from the point of the failure on. -/
  | failure (rest : List Char)
  deriving DecidableEq, Repr

def Reader (α : Type) : Type := List Char → Outcome α

namespace Outcome

def map {α β : Type} (f : α → β) : Outcome α → Outcome β
  | .ok value rest => .ok (f value) rest
  | .mismatch rest => .mismatch rest
  | .failure rest => .failure rest

/-- Goes on with the rest of the text after a success. -/
def bind {α β : Type} (outcome : Outcome α) (next : α → Reader β) : Outcome β :=
  match outcome with
  | .ok value rest => next value rest
  | .mismatch rest => .mismatch rest
  | .failure rest => .failure rest

end Outcome

namespace Reader

variable {α β : Type}

instance : Monad Reader where
  pure value := fun text => .ok value text
  bind reader next := fun text => (reader text).bind next

def reject : Reader α := fun text => .mismatch text

/-- Either reading, the first one first. -/
def orElse (first second : Reader α) : Reader α := fun text =>
  match first text with
  | .mismatch _ => second text
  | outcome => outcome

/-- The reading if it succeeds, and nothing taken off the text if it does not
match. -/
def attempt (reader : Reader α) : Reader (Option α) := fun text =>
  match reader text with
  | .ok value rest => .ok (some value) rest
  | .mismatch _ => .ok none text
  | .failure rest => .failure rest

/-- A reading that is the only one possible: a mismatch in it is final. -/
def commit (reader : Reader α) : Reader α := fun text =>
  match reader text with
  | .mismatch rest => .failure rest
  | outcome => outcome

def satisfy (accepts : Char → Bool) : Reader Char
  | [] => .mismatch []
  | c :: rest => if accepts c then .ok c rest else .mismatch (c :: rest)

def char (c : Char) : Reader Char := satisfy (· == c)

def takeWhile (accepts : Char → Bool) : Reader (List Char) := fun text =>
  .ok (text.takeWhile accepts) (text.dropWhile accepts)

/-- The longest run of characters of a class, which holds at least one. -/
def takeWhile1 (accepts : Char → Bool) : Reader (List Char) := do
  let first ← satisfy accepts
  return first :: (← takeWhile accepts)

/-- Fails to match where the reader would succeed, and takes nothing off the
text. -/
def notAhead (reader : Reader α) : Reader Unit := fun text =>
  match reader text with
  | .ok .. => .mismatch text
  | .mismatch _ => .ok () text
  | .failure rest => .failure rest

/-- Values as long as they match, but no more than `count`. -/
def manyUpTo (reader : Reader α) : (count : Nat) → Reader (List α)
  | 0 => pure []
  | count + 1 => do
    match ← attempt reader with
    | none => return []
    | some value => return value :: (← manyUpTo reader count)

/-- Values as long as they match.  A value takes at least one character, so there
are no more of them than characters. -/
def many (reader : Reader α) : Reader (List α) := fun text =>
  manyUpTo reader text.length text

/-- One value or more with a separator between each two.  A separator that no
value follows is left in the text. -/
def separated1 (separator : Reader β) (reader : Reader α) : Reader (List α) := do
  let first ← reader
  return first :: (← many (do let _ ← separator; reader))

/-- Like `separated1`, or no value at all. -/
def separated (separator : Reader β) (reader : Reader α) : Reader (List α) := do
  return (← attempt (separated1 separator reader)).getD []

@[simp] theorem pure_apply (value : α) (text : List Char) :
    (pure value : Reader α) text = .ok value text := rfl

@[simp] theorem bind_apply (reader : Reader α) (next : α → Reader β) (text : List Char) :
    (reader >>= next) text = (reader text).bind next := rfl

end Reader

end Posl
