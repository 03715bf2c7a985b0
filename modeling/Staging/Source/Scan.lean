import Staging.Source.Token

/-!
Scanning: a source text as a list of tokens.

`piece` looks at the front of a text and splits off the longest token, blank stretch or comment that
begins there; `scan` does so until the text is used up. Line and block comments and blanks leave no
token. A text that no token begins with is reported with the stretch that was tried: for a string
without its closing quote all up to the end of the line, otherwise one character.
-/

namespace Staging

/-- What a text begins with, and what follows it. -/
structure Piece where
  /-- The token, or nothing for blanks and comments; an error for text that begins no token. -/
  found : Except Unit (Option Token)
  taken : List Char
  rest : List Char

/-- Blanks between tokens. -/
def isGap (c : Char) : Bool :=
  c == ' ' || c == '\t' || c == '\r' || c == '\n' || c == '\x0c'

/-- Splits a block comment's body after its closing mark, if it has one. -/
def closeComment? : List Char → Option (List Char × List Char)
  | [] => none
  | '*' :: '/' :: rest => some (['*', '/'], rest)
  | c :: rest => (closeComment? rest).map fun (body, after) => (c :: body, after)

/--
Splits the inside of a string from what follows its closing quote. A backslash takes the next
character with it; neither may be a line end.
-/
def closeString? (quote : Char) : List Char → Option (List Char × List Char)
  | [] => none
  | '\n' :: _ => none
  | ['\\'] => none
  | '\\' :: '\n' :: _ => none
  | '\\' :: c :: rest =>
    (closeString? quote rest).map fun (body, after) => ('\\' :: c :: body, after)
  | c :: rest =>
    if c = quote then some ([], rest)
    else (closeString? quote rest).map fun (body, after) => (c :: body, after)

/-- The value of a hexadecimal digit. -/
def hexValue? (c : Char) : Option Nat :=
  if c.isDigit then some (c.toNat - 48)
  else if 'a' ≤ c ∧ c ≤ 'f' then some (c.toNat - 87)
  else if 'A' ≤ c ∧ c ≤ 'F' then some (c.toNat - 55)
  else none

/-- Reads hexadecimal digits that make up the whole text; at least one is needed. -/
def hexNumber? (cs : List Char) : Option Nat :=
  if cs.isEmpty then none
  else cs.foldl (fun acc c => do return 16 * (← acc) + (← hexValue? c)) (some 0)

/-- The character a code point escape stands for; a plus sign may precede the digits. -/
def codePoint? (cs : List Char) : Option Char :=
  let digits := match cs with
    | '+' :: rest => rest
    | _ => cs
  match hexNumber? digits with
  | some n => if h : n.isValidChar then some (Char.ofNatAux n h) else none
  | none => none

/--
The text the inside of a string denotes. A code point escape takes up to four characters; if they
name no character it stands for itself.
-/
def unescape : List Char → List Char
  | [] => []
  | ['\\'] => ['\\']
  | '\\' :: 'n' :: rest => '\n' :: unescape rest
  | '\\' :: 't' :: rest => '\t' :: unescape rest
  | '\\' :: 'r' :: rest => '\r' :: unescape rest
  | '\\' :: 'b' :: rest => '\x08' :: unescape rest
  | '\\' :: 'f' :: rest => '\x0c' :: unescape rest
  | '\\' :: '0' :: rest => '\x00' :: unescape rest
  | '\\' :: 'u' :: rest =>
    match codePoint? (rest.take 4) with
    | some c => c :: unescape (rest.drop 4)
    | none => '\\' :: 'u' :: rest.take 4 ++ unescape (rest.drop 4)
  | '\\' :: c :: rest => c :: unescape rest
  | c :: rest => c :: unescape rest
termination_by cs => cs.length
decreasing_by all_goals (simp only [List.length_cons, List.length_drop]; omega)

/-- Splits off a run of digits after the given lead, if there is at least one digit. -/
def digitsAfter (lead : List Char) (cs : List Char) : List Char × List Char :=
  match cs.takeWhile Char.isDigit with
  | [] => ([], lead ++ cs)
  | ds => (lead ++ ds, cs.dropWhile Char.isDigit)

/-- Splits the fraction off what follows the digits of a numeral. -/
def splitFraction : List Char → List Char × List Char
  | '.' :: rest => digitsAfter ['.'] rest
  | cs => ([], cs)

/-- Splits the exponent off what follows the fraction of a numeral. -/
def splitExponent : List Char → List Char × List Char
  | [] => ([], [])
  | c :: rest =>
    if c = 'e' ∨ c = 'E' then
      match rest with
      | '+' :: digits => digitsAfter [c, '+'] digits
      | '-' :: digits => digitsAfter [c, '-'] digits
      | digits => digitsAfter [c] digits
    else ([], c :: rest)

/-- Splits a numeral off a text that begins with a digit. -/
def splitNumeral (cs : List Char) : List Char × List Char :=
  let (fraction, rest) := splitFraction (cs.dropWhile Char.isDigit)
  let (exponent, rest) := splitExponent rest
  (cs.takeWhile Char.isDigit ++ fraction ++ exponent, rest)

/-- The token a name-shaped word is. -/
def wordToken (word : List Char) : Token :=
  let text := String.ofList word
  match Keyword.ofText? text with
  | some k => .keyword k
  | none => .ident text

/-- A mark, or one character that begins no token. -/
def markPiece (c : Char) (rest : List Char) : Piece :=
  match Mark.longest? (c :: rest) with
  | some m => ⟨.ok (some (.mark m)), m.text.toList, (c :: rest).drop m.text.length⟩
  | none => ⟨.error (), [c], rest⟩

/-- What the text `c :: rest` begins with. -/
def piece (c : Char) (rest : List Char) : Piece :=
  if isGap c then ⟨.ok none, c :: rest.takeWhile isGap, rest.dropWhile isGap⟩
  else if isNameStart c then
    let word := c :: rest.takeWhile isNamePart
    ⟨.ok (some (wordToken word)), word, rest.dropWhile isNamePart⟩
  else if c.isDigit then
    let (numeral, after) := splitNumeral (c :: rest)
    ⟨.ok (some (.number (String.ofList numeral))), numeral, after⟩
  else if c = '"' ∨ c = '\'' then
    match closeString? c rest with
    | some (body, after) =>
      ⟨.ok (some (.str (String.ofList (unescape body)))), c :: body ++ [c], after⟩
    | none => ⟨.error (), c :: rest.takeWhile (· != '\n'), rest.dropWhile (· != '\n')⟩
  else if c = '/' then
    match rest with
    | '/' :: body => ⟨.ok none, '/' :: '/' :: body.takeWhile (· != '\n'), body.dropWhile (· != '\n')⟩
    | '*' :: body =>
      match closeComment? body with
      | some (inside, after) => ⟨.ok none, '/' :: '*' :: inside, after⟩
      | none => markPiece c rest
    | _ => markPiece c rest
  else markPiece c rest

/-- The number of bytes a character list takes up. -/
def byteLength : List Char → Nat
  | [] => 0
  | c :: rest => c.utf8Size + byteLength rest

/-- Text that begins no token. -/
structure ScanError where
  text : String
  span : Span
deriving DecidableEq, Repr

/-- Scans a text that stands at the given byte offset; each step uses up one unit of fuel. -/
def scanFrom : Nat → Nat → List Char → Except ScanError (List Lexeme)
  | 0, _, _ => .ok []
  | _, _, [] => .ok []
  | fuel + 1, offset, c :: rest =>
    let p := piece c rest
    let stop := offset + byteLength p.taken
    match p.found with
    | .error () => .error ⟨String.ofList p.taken, ⟨offset, stop⟩⟩
    | .ok none => scanFrom fuel stop p.rest
    | .ok (some t) => (scanFrom fuel stop p.rest).map (⟨t, ⟨offset, stop⟩⟩ :: ·)

/-- The tokens of a source text, or the first stretch that begins none. -/
def scan (source : String) : Except ScanError (List Lexeme) :=
  scanFrom source.length 0 source.toList

end Staging
