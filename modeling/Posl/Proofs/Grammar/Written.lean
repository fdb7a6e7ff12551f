import Posl.Lexeme
import Posl.Source

/-!
# The written language

What may stand in a text, said without any reader: blank space, words, terms,
atoms and clauses.  A form relates a value, a text that starts with a writing of
the value, and what is left of the text.  Nothing is said about how long a
writing has to be, and no alternative goes before another.
-/

namespace Posl

/-- A value, a text that starts with a writing of it, and the rest of the
text. -/
abbrev Form (α : Type) := α → List Char → List Char → Prop

namespace Written

variable {α : Type}

/-! ## Blank space -/

/-- Where a comment ends.  A carriage return without a line feed ends no
comment. -/
inductive LineEnd : List Char → Prop
  | nil : LineEnd []
  | lineFeed {rest} : LineEnd ('\n' :: rest)
  | carriageReturn {rest} : LineEnd ('\r' :: '\n' :: rest)

/-- Spaces, tabs, line ends and comments up to a rest of the text. -/
inductive Blank : List Char → List Char → Prop
  | done {rest} : Blank rest rest
  | space {c text rest} : c ∈ [' ', '\t', '\r', '\n'] → Blank text rest → Blank (c :: text) rest
  | comment {body text rest} : (∀ c ∈ body, c ≠ '\r' ∧ c ≠ '\n') → LineEnd text →
      Blank text rest → Blank ('%' :: (body ++ text)) rest

abbrev Token (c : Char) (text rest : List Char) : Prop := Blank text (c :: rest)

abbrev Arrow (text rest : List Char) : Prop := Blank text (':' :: '-' :: rest)

/-! ## Combined forms -/

/-- A form after something that has no value of its own. -/
inductive Then (lead : List Char → List Char → Prop) (form : Form α) : Form α
  | intro {value text next rest} : lead text next → form value next rest →
      Then lead form value text rest

inductive Optional (form : Form α) : Form (Option α)
  | none {rest} : Optional form none rest rest
  | some {value text rest} : form value text rest → Optional form (some value) text rest

/-- Any number of writings one after the other. -/
inductive Many (form : Form α) : Form (List α)
  | nil {rest} : Many form [] rest rest
  | cons {first others text next rest} : form first text next → Many form others next rest →
      Many form (first :: others) text rest

/-- One item or more, each after blank space, with commas between them. -/
inductive Series (item : Form α) : Form (List α)
  | intro {first others text next rest} : Then Blank item first text next →
      Many (Then (Token ',') (Then Blank item)) others next rest →
      Series item (first :: others) text rest

/-- A series of items or nothing at all. -/
inductive Items (item : Form α) : Form (List α)
  | none {rest} : Items item [] rest rest
  | some {items text rest} : Series item items text rest → Items item items text rest

/-! ## Words -/

/-- A text that satisfies a condition and stands for itself. -/
def Word (accepts : List Char → Prop) : Form String := fun word text rest =>
  accepts word.toList ∧ text = word.toList ++ rest

def Identifier : Form String := Word (Lexeme.isIdentifier ·)

/-- Digits, which may have a minus sign before them and a fraction after
them. -/
inductive IsNumeral : List Char → Prop
  | integer {sign whole} : sign = [] ∨ sign = ['-'] → Lexeme.isDigits whole →
      IsNumeral (sign ++ whole)
  | decimal {sign whole fraction} : sign = [] ∨ sign = ['-'] → Lexeme.isDigits whole →
      Lexeme.isDigits fraction → IsNumeral (sign ++ whole ++ '.' :: fraction)

def Numeral : Form String := Word IsNumeral

/-- A text up to its closing quote.  After a backslash any character stands for
itself. -/
inductive QuotedBody : Form (List Char)
  | close {rest} : QuotedBody [] ('"' :: rest) rest
  | escaped {c body text rest} : QuotedBody body text rest →
      QuotedBody (c :: body) ('\\' :: c :: text) rest
  | plain {c body text rest} : c ≠ '"' → c ≠ '\\' → QuotedBody body text rest →
      QuotedBody (c :: body) (c :: text) rest

def Quoted : Form String := fun word text rest =>
  ∃ body, text = '"' :: body ∧ QuotedBody word.toList body rest

/-! ## Terms -/

def TypeName : Form String := Then (Token ':') (Then Blank Identifier)

inductive Term : Form SourceTerm
  | mark {rest} : Term .anon ('?' :: rest) rest
  | underscore {rest} : Term .anon ('_' :: rest) rest
  | named {name type text next rest} : Identifier name text next →
      Optional TypeName type next rest → Term (.var name type) ('?' :: text) rest
  | number {name type text next rest} : Numeral name text next →
      Optional TypeName type next rest → Term (.const name type) text rest
  | string {name type text next rest} : Quoted name text next →
      Optional TypeName type next rest → Term (.const name type) text rest
  | individual {name type text next rest} : Identifier name text next → name ≠ "_" →
      Optional TypeName type next rest → Term (.const name type) text rest
  | expression {functor args text next inner close rest} : Identifier functor text next →
      functor ≠ "_" → Token '(' next inner → Items Term args inner close →
      Token ')' close rest → Term (.expr functor args) text rest

/-! ## Atoms and clauses -/

inductive ObjectIdentifier : Form SourceTerm
  | intro {oid text next rest} : Then Blank Term oid text next → Token '^' next rest →
      ObjectIdentifier oid text rest

inductive Atom : Form SourceAtom
  | name {predicate text rest} : Identifier predicate text rest →
      Atom { predicate, oid := none, args := [] } text rest
  | call {predicate oid args text next inner operands close rest} :
      Identifier predicate text next → Token '(' next inner →
      Optional ObjectIdentifier oid inner operands → Items Term args operands close →
      Token ')' close rest → Atom { predicate, oid, args } text rest

inductive Clause : Form (List SourceAtom)
  | fact {head text next rest} : Then Blank Atom head text next → Token '.' next rest →
      Clause [head] text rest
  | rule {head body text next inner close rest} : Then Blank Atom head text next →
      Arrow next inner → Series Atom body inner close → Token '.' close rest →
      Clause (head :: body) text rest

inductive Period : List Char → List Char → Prop
  | absent {rest} : Period rest rest
  | present {text rest} : Token '.' text rest → Period text rest

inductive Query : Form (List SourceAtom)
  | goals {goals text next rest} : Series Atom goals text next → Period next rest →
      Query goals text rest
  | rule {head body text next inner close rest} : Then Blank Atom head text next →
      Arrow next inner → Series Atom body inner close → Period close rest →
      Query (head :: body) text rest

/-- A form with nothing but blank space after it. -/
inductive Whole (form : Form α) : α → List Char → Prop
  | intro {value text rest} : form value text rest → Blank rest [] → Whole form value text

end Written

end Posl
