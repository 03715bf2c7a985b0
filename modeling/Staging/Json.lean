import Staging.Number.Binary
import Staging.Source.Scan

/-!
JSON documents, as far as they are read: contexts come in this form.

Members of an object are held in ascending order of their keys, of members with equal keys the last
one written. Arrays and objects may be nested 127 deep.

Numbers are read in one pass: the leading digits that fit 64 bits are scaled by a power of ten in
floating point. So a number with few digits is the nearest double, while one with many digits may be
off by a unit in the last place. A number beyond the largest double is refused.
-/

namespace Staging

/-- A JSON document. -/
inductive Json where
  | null
  | bool (b : Bool)
  | number (x : Float)
  | string (s : String)
  | array (items : List Json)
  | object (members : List (String × Json))

namespace Json

/-- Puts a member in its place among members in ascending order, replacing one of the same key. -/
def insertMember (key : String) (value : Json) : List (String × Json) → List (String × Json)
  | [] => [(key, value)]
  | (k, v) :: rest =>
    if key < k then (key, value) :: (k, v) :: rest
    else if key = k then (key, value) :: rest
    else (k, v) :: insertMember key value rest

/-- Blanks between the parts of a document. -/
def isSpace (c : Char) : Bool := c == ' ' || c == '\n' || c == '\t' || c == '\r'

/-- Drops leading blanks. -/
def skipSpace (cs : List Char) : List Char := cs.dropWhile isSpace

/-! ### Numbers -/

/-- The largest significand that is accumulated exactly. -/
def maxSignificand : Nat := Nat.pow 2 64 - 1

/--
Scales a significand by a power of ten, one floating-point operation at a time. The result is `none`
if it would be infinite.
-/
def scale (significand : Nat) (exp : Int) : Option Float :=
  let start := Number.ofRatio false significand 1
  let power (n : Nat) : Float := Number.ofDecimal false 1 n
  if 0 ≤ exp then
    if 308 < exp then if significand = 0 then some start else none
    else
      let x := start * power exp.toNat
      if x.isInf then none else some x
  else shrink (-exp).toNat start power ((-exp).toNat / 308 + 1)
where
  /-- Divides by `10 ^ n` in steps of at most `10 ^ 308`. -/
  shrink (n : Nat) (x : Float) (power : Nat → Float) : Nat → Option Float
    | 0 => some x
    | fuel + 1 =>
      if n ≤ 308 then some (x / power n)
      else if x == 0.0 then some x
      else shrink (n - 308) (x / power 308) power fuel

/-- Adds digits to a significand while it fits; gives the sum and the digits left over. -/
def takeDigits : Nat → List Char → Nat × List Char
  | acc, [] => (acc, [])
  | acc, c :: rest =>
    let next := 10 * acc + (c.toNat - 48)
    if next ≤ maxSignificand then takeDigits next rest else (acc, c :: rest)

/-- Reads an exponent's digits after its mark; the rest of the text follows. -/
def readExponent? (cs : List Char) : Option (Int × List Char) :=
  let (negative, after) := match cs with
    | '-' :: r => (true, r)
    | '+' :: r => (false, r)
    | r => (false, r)
  let digits := after.takeWhile Char.isDigit
  if digits.isEmpty then none
  else
    let n : Int := digits.foldl (fun acc c => 10 * acc + (c.toNat - 48 : Nat)) 0
    some (if negative then -n else n, after.dropWhile Char.isDigit)

/-- Reads the fraction that may follow; the digits behind the point and the rest of the text. -/
def readFraction? : List Char → Option (List Char × List Char)
  | '.' :: after =>
    let digits := after.takeWhile Char.isDigit
    if digits.isEmpty then none else some (digits, after.dropWhile Char.isDigit)
  | cs => some ([], cs)

/-- Reads a number whose sign is already known. -/
def readUnsigned? (negative : Bool) (cs : List Char) : Option (Float × List Char) := do
  let whole := cs.takeWhile Char.isDigit
  if whole.isEmpty || (whole.length > 1 && whole.head? == some '0') then none
  let (fraction, rest) ← readFraction? (cs.dropWhile Char.isDigit)
  let (lead, lost) := takeDigits 0 whole
  let (significand, unused) :=
    if fraction.isEmpty then (lead, []) else takeDigits lead fraction
  let kept : Int := (lost.length : Int) - ((fraction.length - unused.length : Nat) : Int)
  let (exp, rest) ← match rest with
    | c :: after => if c = 'e' ∨ c = 'E' then readExponent? after else some (0, rest)
    | [] => some (0, [])
  let x ← if significand = 0 then some 0.0 else scale significand (kept + exp)
  return (if negative then -x else x, rest)

/-- Reads a number. -/
def readNumber? : List Char → Option (Float × List Char)
  | '-' :: rest => readUnsigned? true rest
  | cs => readUnsigned? false cs

/-! ### Strings -/

/-- Reads the four digits of a code unit. -/
def readUnit? (cs : List Char) : Option (Nat × List Char) :=
  if cs.length < 4 then none
  else ((cs.take 4).foldl (fun acc c => do return 16 * (← acc) + (← hexValue? c)) (some 0)).map
    (·, cs.drop 4)

/-- Reads the character of a code unit escape, of which two may form a pair. -/
def readCodePoint? (cs : List Char) : Option (Char × List Char) := do
  let (n, rest) ← readUnit? cs
  if 0xd800 ≤ n ∧ n < 0xdc00 then
    match rest with
    | '\\' :: 'u' :: after =>
      let (m, rest) ← readUnit? after
      if 0xdc00 ≤ m ∧ m < 0xe000 then
        return (Char.ofNat (0x10000 + (n - 0xd800) * 0x400 + (m - 0xdc00)), rest)
      else none
    | _ => none
  else if 0xdc00 ≤ n ∧ n < 0xe000 then none
  else return (Char.ofNat n, rest)

/-- The character a one-letter escape stands for. -/
def simpleEscape? : Char → Option Char
  | '"' => some '"'
  | '\\' => some '\\'
  | '/' => some '/'
  | 'b' => some '\x08'
  | 'f' => some '\x0c'
  | 'n' => some '\n'
  | 'r' => some '\r'
  | 't' => some '\t'
  | _ => none

/-- Reads a string up to its closing quote. -/
def readString? : Nat → List Char → Option (List Char × List Char)
  | 0, _ => none
  | _, [] => none
  | fuel + 1, c :: rest =>
    if c = '"' then some ([], rest)
    else if c.toNat < 0x20 then none
    else if c = '\\' then
      match rest with
      | 'u' :: digits => do
        let (d, after) ← readCodePoint? digits
        let (text, after) ← readString? fuel after
        return (d :: text, after)
      | e :: after => do
        let d ← simpleEscape? e
        let (text, after) ← readString? fuel after
        return (d :: text, after)
      | [] => none
    else (readString? fuel rest).map fun (text, after) => (c :: text, after)

/-! ### Documents -/

/-- Drops the given word from the front of a text. -/
def word? (word : String) (cs : List Char) : Option (List Char) :=
  if word.toList.isPrefixOf cs then some (cs.drop word.length) else none

mutual

/-- Reads a value; `depth` is how many containers may still be opened. -/
def readValue? : Nat → Nat → List Char → Option (Json × List Char)
  | 0, _, _ => none
  | fuel + 1, depth, cs =>
    match skipSpace cs with
    | [] => none
    | 'n' :: rest => (word? "ull" rest).map (.null, ·)
    | 't' :: rest => (word? "rue" rest).map (.bool true, ·)
    | 'f' :: rest => (word? "alse" rest).map (.bool false, ·)
    | '"' :: rest =>
      (readString? (rest.length + 1) rest).map fun (s, r) => (.string (String.ofList s), r)
    | '[' :: rest =>
      if depth ≤ 1 then none
      else
        match skipSpace rest with
        | ']' :: after => some (.array [], after)
        | _ => (readItems? fuel (depth - 1) rest).map fun (items, r) => (.array items, r)
    | '\x7b' :: rest =>
      if depth ≤ 1 then none
      else
        match skipSpace rest with
        | '\x7d' :: after => some (.object [], after)
        | _ => (readMembers? fuel (depth - 1) [] rest).map fun (ms, r) => (.object ms, r)
    | c :: rest => (readNumber? (c :: rest)).map fun (x, r) => (.number x, r)

/-- Reads the items of an array, at least one, and its closing bracket. -/
def readItems? : Nat → Nat → List Char → Option (List Json × List Char)
  | 0, _, _ => none
  | fuel + 1, depth, cs => do
    let (item, rest) ← readValue? fuel depth cs
    match skipSpace rest with
    | ',' :: after =>
      let (items, r) ← readItems? fuel depth after
      return (item :: items, r)
    | ']' :: after => return ([item], after)
    | _ => none

/-- Reads the members of an object, at least one, and its closing brace. -/
def readMembers? :
    Nat → Nat → List (String × Json) → List Char → Option (List (String × Json) × List Char)
  | 0, _, _, _ => none
  | fuel + 1, depth, members, cs => do
    match skipSpace cs with
    | '"' :: rest =>
      let (key, rest) ← readString? (rest.length + 1) rest
      match skipSpace rest with
      | ':' :: rest =>
        let (value, rest) ← readValue? fuel depth rest
        let members := insertMember (String.ofList key) value members
        match skipSpace rest with
        | ',' :: after => readMembers? fuel depth members after
        | '\x7d' :: after => return (members, after)
        | _ => none
      | _ => none
    | _ => none

end

/-- How many containers may be open, counting one more than the deepest that is accepted. -/
def maxDepth : Nat := 128

/-- Reads a document that makes up the whole text. -/
def read? (text : String) : Option Json := do
  let cs := text.toList
  let (value, rest) ← readValue? (2 * cs.length + 2) maxDepth cs
  if (skipSpace rest).isEmpty then some value else none

/-- The member of an object with the given key. -/
def member? (key : String) : Json → Option Json
  | object members => (members.find? (·.1 == key)).map (·.2)
  | _ => none

end Json

end Staging
