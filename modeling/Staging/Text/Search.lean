/-!
Searching texts, as character lists.

A text is kept in UTF-8 and searched byte by byte. What a search finds is the offset of a byte; the position given to a
script counts the characters in front of it.
-/

namespace Staging.Text

/-- The bytes that a text is kept in. -/
def bytes (cs : List Char) : List UInt8 := cs.flatMap String.utf8EncodeChar

/-- The first offset at which some bytes occur in others. -/
def findBytes? (needle : List UInt8) : List UInt8 → Option Nat
  | [] => if needle.isEmpty then some 0 else none
  | b :: rest =>
    if needle.isPrefixOf (b :: rest) then some 0 else (findBytes? needle rest).map (· + 1)

/-- Whether some bytes occur in others. -/
def containsBytes (needle : List UInt8) : List UInt8 → Bool
  | [] => needle.isEmpty
  | b :: rest => needle.isPrefixOf (b :: rest) || containsBytes needle rest

/-- What a text has in front of the byte at an offset, where a character begins or the text ends. -/
def takeBytes : List Char → Nat → List Char
  | [], _ => []
  | c :: rest, offset => if c.utf8Size ≤ offset then c :: takeBytes rest (offset - c.utf8Size) else []

/-- The number of characters in front of the byte at an offset. -/
def charIndex (hay : List Char) (offset : Nat) : Nat := (takeBytes hay offset).length

/-- The position of the character at which a text first occurs in another. -/
def indexOf? (needle hay : List Char) : Option Nat := (findBytes? (bytes needle) (bytes hay)).map (charIndex hay)

/-- Whether a text occurs in another. -/
def contains (needle hay : List Char) : Bool := containsBytes (bytes needle) (bytes hay)

/--
Splits at the occurrences of a separator. `skip` counts the characters left of an occurrence that was
found, and `current` holds the part that is being read, last character first.
-/
def splitFrom (sep : List Char) (skip : Nat) (current : List Char) : List Char → List (List Char)
  | [] => [current.reverse]
  | c :: rest =>
    match skip with
    | k + 1 => splitFrom sep k current rest
    | 0 =>
      if sep.isPrefixOf (c :: rest) then current.reverse :: splitFrom sep (sep.length - 1) [] rest
      else splitFrom sep 0 (c :: current) rest

/--
The parts between the occurrences of a separator, which must not be empty. Occurrences are found from
left to right and do not overlap.
-/
def splitOn (sep hay : List Char) : List (List Char) := splitFrom sep 0 [] hay

end Staging.Text
