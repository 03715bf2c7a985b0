/-!
Doubles as exact numbers.

A finite double is `mant * 2 ^ exp` with a sign; the smallest exponent is `-1074`. `view` takes a
double apart and `ofRatio` builds the double nearest to a fraction, ties to the even neighbour, so
all conversions between numbers and text can be computed exactly on `Nat`.
-/

namespace Staging.Number

/-- A double taken apart. The sign of a zero is kept. -/
inductive View where
  | nan
  | infinite (negative : Bool)
  | finite (negative : Bool) (mant : Nat) (exp : Int)
deriving DecidableEq, Repr

/-- The double that is not a number. -/
def nan : Float := 0.0 / 0.0

/-- The infinite double. -/
def infinity : Float := 1.0 / 0.0

/-- The exponent of the smallest positive double. -/
def minExp : Int := -1074

/-- Reads sign, mantissa and exponent off the bits of a double. -/
def viewBits (bits : Nat) : View :=
  let negative := decide (Nat.pow 2 63 ≤ bits)
  let field := bits / Nat.pow 2 52 % Nat.pow 2 11
  let fraction := bits % Nat.pow 2 52
  if field = 2047 then
    if fraction = 0 then .infinite negative else .nan
  else if field = 0 then .finite negative fraction minExp
  else .finite negative (Nat.pow 2 52 + fraction) (minExp + (field - 1 : Nat))

/-- A double taken apart. -/
def view (x : Float) : View := viewBits x.toBits.toNat

/-- The quotient `num / den` rounded to an integer, a half going to the even neighbour. -/
def roundHalfEven (num den : Nat) : Nat :=
  let q := num / den
  let r := num % den
  if 2 * r < den then q
  else if den < 2 * r then q + 1
  else if q % 2 = 0 then q else q + 1

/-- `num * 2 ^ k / den` as a fraction of naturals. -/
def scaleTwo (num den : Nat) (k : Int) : Nat × Nat :=
  if 0 ≤ k then (num * Nat.pow 2 k.toNat, den) else (num, den * Nat.pow 2 (-k).toNat)

/-- The largest `e` with `2 ^ e ≤ num / den`, for positive arguments. -/
def floorLogTwo (num den : Nat) : Int :=
  let guess : Int := (num.log2 : Int) - den.log2
  let (n, d) := scaleTwo num den (-guess)
  if d ≤ n then guess else guess - 1

/-- The bits of infinity. -/
def infinityBits : Nat := 0x7ff0000000000000

/--
The bits of the double nearest to the fraction `num / den`, infinity if it is too large.

The hidden bit of a normal mantissa carries into the exponent field, so one sum covers normal and
subnormal numbers and a mantissa that rounds up to the next power of two.
-/
def bitsOfRatio (num den : Nat) : Nat :=
  if num = 0 then 0
  else
    let exp := max (floorLogTwo num den - 52) minExp
    let (n, d) := scaleTwo num den (-exp)
    min ((exp - minExp).toNat * Nat.pow 2 52 + roundHalfEven n d) infinityBits

/-- The double with the given sign nearest to the fraction `num / den`. -/
def ofRatio (negative : Bool) (num den : Nat) : Float :=
  let magnitude := bitsOfRatio num den
  Float.ofBits (if negative then Nat.pow 2 63 + magnitude else magnitude).toUInt64

/--
The double nearest to `mant * 10 ^ exp`. Exponents far outside the range of doubles are decided
without computing the power.
-/
def ofDecimal (negative : Bool) (mant : Nat) (exp : Int) : Float :=
  if mant = 0 then ofRatio negative 0 1
  else if 400 < exp then ofRatio negative (Nat.pow 2 1024) 1
  else if exp < -(400 + mant.log2 : Int) then ofRatio negative 0 1
  else if 0 ≤ exp then ofRatio negative (mant * Nat.pow 10 exp.toNat) 1
  else ofRatio negative mant (Nat.pow 10 (-exp).toNat)

/-- Whether the sign bit is set. -/
def isNegative (x : Float) : Bool := decide (Nat.pow 2 63 ≤ x.toBits.toNat)

/-- The remainder of the division truncated towards zero. It is exact and has the dividend's sign. -/
def remainder (x y : Float) : Float :=
  match view x, view y with
  | .finite negative m e, .finite _ n f =>
    if n = 0 then nan
    else
      let low := min e f
      let r := (m * Nat.pow 2 (e - low).toNat) % (n * Nat.pow 2 (f - low).toNat)
      let (num, den) := scaleTwo r 1 low
      ofRatio negative num den
  | .finite _ _ _, .infinite _ => x
  | _, _ => nan

end Staging.Number
