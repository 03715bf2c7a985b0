import Staging.Number.Binary

/-!
Reading decimal numbers.

The grammar is an optional sign and then either digits with an optional fraction and exponent, at
least one digit standing before or after the point, or one of the words `inf`, `infinity` and `nan`
in any case. The result is the double nearest to the exact value.
-/

namespace Staging.Number

/-- The value of a digit sequence, most significant digit first. -/
def digitsValue (ds : List Char) : Nat :=
  ds.foldl (fun acc c => 10 * acc + (c.toNat - 48)) 0

/-- Splits off a sign; `true` stands for minus. -/
def splitSign : List Char → Bool × List Char
  | '-' :: rest => (true, rest)
  | '+' :: rest => (false, rest)
  | cs => (false, cs)

/-- Reads the exponent that may follow the digits, which must end the text. -/
def readExponent? : List Char → Option Int
  | [] => some 0
  | c :: rest =>
    if c = 'e' ∨ c = 'E' then
      let (negative, ds) := splitSign rest
      if ds.isEmpty || !ds.all Char.isDigit then none
      else some (if negative then -(digitsValue ds : Int) else digitsValue ds)
    else none

/-- Reads an unsigned decimal, which must be the whole text. -/
def readDecimal? (negative : Bool) (cs : List Char) : Option Float :=
  let whole := cs.takeWhile Char.isDigit
  let afterWhole := cs.dropWhile Char.isDigit
  let (fraction, rest) :=
    match afterWhole with
    | '.' :: r => (r.takeWhile Char.isDigit, r.dropWhile Char.isDigit)
    | r => ([], r)
  if whole.isEmpty && fraction.isEmpty then none
  else
    (readExponent? rest).map fun e =>
      ofDecimal negative (digitsValue (whole ++ fraction)) (e - (fraction.length : Int))

/-- Reads a number that makes up the whole text. -/
def read? (cs : List Char) : Option Float :=
  let (negative, rest) := splitSign cs
  let word := String.ofList (rest.map Char.toLower)
  if word = "inf" ∨ word = "infinity" then
    some (if negative then -infinity else infinity)
  else if word = "nan" then some nan
  else readDecimal? negative rest

/-- The number a numeral of the script language denotes. -/
def ofNumeral (text : String) : Float :=
  (read? text.toList).getD nan

end Staging.Number
