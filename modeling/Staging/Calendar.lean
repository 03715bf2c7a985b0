import Staging.Number.Read
import Staging.Text.Blank

/-!
Instants and their texts, in the proleptic Gregorian calendar and in universal time.

Two forms of text are read: a full time stamp with seconds and an offset, and a bare date, which
denotes the start of its day. A leap second is held as the second before it with a thousand or more
milliseconds. Only time stamps of the first form with a four-digit year are read, while years outside
0 to 9999 are written with a sign.
-/

namespace Staging

/-- A point in time: seconds since the start of 1970 and nanoseconds within the second. -/
structure Instant where
  seconds : Int
  nanos : Nat
deriving DecidableEq, Repr

/-- A day of the calendar. -/
structure Day where
  year : Int
  month : Nat
  day : Nat
deriving DecidableEq, Repr

namespace Day

def isLeap (year : Int) : Bool := year % 4 == 0 && (year % 100 != 0 || year % 400 == 0)

/-- The number of days of a month. -/
def monthLength (year : Int) (month : Nat) : Nat :=
  if month = 2 then if isLeap year then 29 else 28
  else if month = 4 ∨ month = 6 ∨ month = 9 ∨ month = 11 then 30
  else 31

/-- The years that have a date. -/
def minYear : Int := -262143
def maxYear : Int := 262142

def isValid (d : Day) : Bool :=
  minYear ≤ d.year && d.year ≤ maxYear && 1 ≤ d.month && d.month ≤ 12 && 1 ≤ d.day
    && d.day ≤ monthLength d.year d.month

/--
Days since the start of 1970. Years are counted from March on, so that the day added in leap years is
the last one; 400 years have 146097 days.
-/
def toNumber (d : Day) : Int :=
  let year := if d.month ≤ 2 then d.year - 1 else d.year
  let era := year.fdiv 400
  let ofEra := year - era * 400
  let month : Int := ((d.month + 9) % 12 : Nat)
  let ofYear := (153 * month + 2) / 5 + d.day - 1
  era * 146097 + (ofEra * 365 + ofEra / 4 - ofEra / 100 + ofYear) - 719468

/-- The day with the given number. -/
def ofNumber (n : Int) : Day :=
  let shifted := n + 719468
  let era := shifted.fdiv 146097
  let ofEra := shifted - era * 146097
  let yearOfEra := (ofEra - ofEra / 1460 + ofEra / 36524 - ofEra / 146096) / 365
  let ofYear := ofEra - (365 * yearOfEra + yearOfEra / 4 - yearOfEra / 100)
  let month := (5 * ofYear + 2) / 153
  let day := ofYear - (153 * month + 2) / 5 + 1
  let calendarMonth := if month < 10 then month + 3 else month - 9
  let year := yearOfEra + era * 400 + (if calendarMonth ≤ 2 then 1 else 0)
  ⟨year, calendarMonth.toNat, day.toNat⟩

end Day

namespace Instant

/-! ### Reading -/

/-- Reads between `least` and `most` digits. -/
def readDigits? (least most : Nat) (cs : List Char) : Option (Nat × List Char) :=
  let digits := (cs.take most).takeWhile Char.isDigit
  if digits.length < least then none
  else some (Number.digitsValue digits, cs.drop digits.length)

/-- Drops the given character from the front. -/
def readChar? (c : Char) : List Char → Option (List Char)
  | d :: rest => if c = d then some rest else none
  | [] => none

/-- Reads the separator between date and time. -/
def readSeparator? : List Char → Option (List Char)
  | c :: rest => if c = 'T' ∨ c = 't' ∨ c = ' ' then some rest else none
  | [] => none

/-- Reads a fraction of a second if there is one. Digits past the nanosecond are dropped. -/
def readFraction? : List Char → Option (Nat × List Char)
  | '.' :: rest =>
    let digits := rest.takeWhile Char.isDigit
    if digits.isEmpty then none
    else
      let kept := digits.take 9
      some (Number.digitsValue kept * Nat.pow 10 (9 - kept.length), rest.drop digits.length)
  | cs => some (0, cs)

/-- Reads an offset from universal time, in seconds. -/
def readOffset? : List Char → Option (Int × List Char)
  | [] => none
  | c :: rest =>
    if c = 'Z' ∨ c = 'z' then some (0, rest)
    else if c = '+' ∨ c = '-' ∨ c = '−' then do
      let (hours, rest) ← readDigits? 2 2 rest
      let rest ← readChar? ':' rest
      let (minutes, rest) ← readDigits? 2 2 rest
      if hours > 23 ∨ minutes > 59 then none
      else
        let seconds : Int := hours * 3600 + minutes * 60
        return (if c = '+' then seconds else -seconds, rest)
    else none

/-- The instant at which a day begins. -/
def startOf (d : Day) : Instant := ⟨d.toNumber * 86400, 0⟩

/-- Reads a time stamp: date, time with seconds, offset. -/
def readStamp? (cs : List Char) : Option Instant := do
  let (year, cs) ← readDigits? 4 4 cs
  let cs ← readChar? '-' cs
  let (month, cs) ← readDigits? 2 2 cs
  let cs ← readChar? '-' cs
  let (day, cs) ← readDigits? 2 2 cs
  let cs ← readSeparator? cs
  let (hour, cs) ← readDigits? 2 2 cs
  let cs ← readChar? ':' cs
  let (minute, cs) ← readDigits? 2 2 cs
  let cs ← readChar? ':' cs
  let (second, cs) ← readDigits? 2 2 cs
  let (nanos, cs) ← readFraction? cs
  let (offset, cs) ← readOffset? cs
  let d : Day := ⟨year, month, day⟩
  if !cs.isEmpty || !d.isValid || hour > 23 || minute > 59 || second > 60 then none
  else
    let (second, nanos) := if second = 60 then (59, nanos + 1000000000) else (second, nanos)
    return ⟨d.toNumber * 86400 + hour * 3600 + minute * 60 + second - offset, nanos⟩

/-- Reads a year: four digits at most, or any number of digits after a sign. -/
def readYear? (cs : List Char) : Option (Int × List Char) :=
  match cs.dropWhile Text.isBlank with
  | '-' :: rest => (readDigits? 1 rest.length rest).map fun (n, r) => (-(n : Int), r)
  | '+' :: rest => (readDigits? 1 rest.length rest).map fun (n, r) => ((n : Int), r)
  | rest => (readDigits? 1 4 rest).map fun (n, r) => ((n : Int), r)

/-- Reads a bare date. Blanks may stand before each number, and a number may have one digit. -/
def readDate? (cs : List Char) : Option Instant := do
  let (year, cs) ← readYear? cs
  let cs ← readChar? '-' cs
  let (month, cs) ← readDigits? 1 2 (cs.dropWhile Text.isBlank)
  let cs ← readChar? '-' cs
  let (day, cs) ← readDigits? 1 2 (cs.dropWhile Text.isBlank)
  let d : Day := ⟨year, month, day⟩
  if !cs.isEmpty || !d.isValid then none else return startOf d

/-- Reads an instant. -/
def read? (text : String) : Option Instant :=
  match readStamp? text.toList with
  | some t => some t
  | none => readDate? text.toList

/-! ### Milliseconds -/

/-- Milliseconds since the start of 1970. -/
def millis (t : Instant) : Int := t.seconds * 1000 + (t.nanos / 1000000 : Nat)

/-- The instant so many milliseconds after the start of 1970, if the calendar reaches it. -/
def ofMillis? (ms : Int) : Option Instant :=
  let seconds := ms.fdiv 1000
  let days := seconds.fdiv 86400
  let first := (Day.mk Day.minYear 1 1).toNumber
  let last := (Day.mk Day.maxYear 12 31).toNumber
  if first ≤ days ∧ days ≤ last then some ⟨seconds, ((ms - seconds * 1000) * 1000000).toNat⟩
  else none

/-- The instant a number of milliseconds denotes, cut to an integer. -/
def ofNumber? (x : Float) : Option Instant :=
  match Number.view x with
  | .finite negative mant exp =>
    let (num, den) := Number.scaleTwo mant 1 exp
    let n : Int := (num / den : Nat)
    ofMillis? (if negative then -n else n)
  | _ => none

/-! ### Writing -/

/-- A number with at least so many digits. -/
def padded (width n : Nat) : String :=
  let digits := Nat.toDigits 10 n
  String.ofList (List.replicate (width - digits.length) '0' ++ digits)

def yearText (year : Int) : String :=
  if 0 ≤ year ∧ year ≤ 9999 then padded 4 year.toNat
  else (if year < 0 then "-" else "+") ++ padded 4 year.natAbs

/-- The text of an instant, cut to milliseconds. -/
def text (t : Instant) : String :=
  let days := t.seconds.fdiv 86400
  let ofDay := (t.seconds - days * 86400).toNat
  let d := Day.ofNumber days
  let (second, nanos) :=
    if 1000000000 ≤ t.nanos then (ofDay % 60 + 1, t.nanos - 1000000000) else (ofDay % 60, t.nanos)
  yearText d.year ++ "-" ++ padded 2 d.month ++ "-" ++ padded 2 d.day ++ "T"
    ++ padded 2 (ofDay / 3600) ++ ":" ++ padded 2 (ofDay / 60 % 60) ++ ":" ++ padded 2 second
    ++ "." ++ padded 3 (nanos / 1000000) ++ "Z"

end Instant

end Staging
