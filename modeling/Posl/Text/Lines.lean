/-!
# Lines of bytes

Bytes are split into lines before they are read as text, so that a line which is
no UTF-8 spoils no other.
-/

namespace Posl

/-- A line given from its end, without the carriage return that stands there. -/
def endLine : (reversed : List UInt8) → List UInt8
  | 13 :: reversed => reversed.reverse
  | reversed => reversed.reverse

/-- The lines of what is left of a text, the first of which has begun. -/
def splitLinesFrom (reversed : List UInt8) : List UInt8 → List (List UInt8)
  | [] => if reversed.isEmpty then [] else [reversed.reverse]
  | byte :: rest =>
    if byte = 10 then endLine reversed :: splitLinesFrom [] rest
    else splitLinesFrom (byte :: reversed) rest

/-- The lines of a text.  A line ends with a line feed, which may stand after a
carriage return; what follows the last line feed is a line of its own if it is
not empty. -/
def splitLines (bytes : List UInt8) : List (List UInt8) := splitLinesFrom [] bytes

/-- The text that bytes encode in UTF-8. -/
def decode? (bytes : List UInt8) : Option String := String.fromUTF8? ⟨bytes.toArray⟩

end Posl
