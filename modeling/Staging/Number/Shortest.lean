import Staging.Number.Binary

/-!
Shortest decimals: the text of a number.

The digits written for a finite double are the fewest that read back as the same double; of the
decimals with that many digits it is the nearest, the larger one of two equally near. They are
written positionally whatever the size of the number.
-/

namespace Staging.Number

/-- The largest `e` with `10 ^ e ≤ num / den`, for positive arguments. -/
def floorLogTen (num den : Nat) : Int :=
  if den ≤ num then ((Nat.toDigits 10 (num / den)).length : Int) - 1
  else
    let places := (Nat.toDigits 10 (den / num)).length
    if num * Nat.pow 10 (places - 1) = den then 1 - (places : Int) else -(places : Int)

/--
The interval of reals that round to `mant * 2 ^ exp`, in units of `2 ^ (exp - 2)`. Below a power of
two the doubles lie twice as dense, which halves the lower part.
-/
def roundingInterval (mant : Nat) (exp : Int) : Nat × Nat :=
  let below := if mant = Nat.pow 2 52 ∧ minExp < exp then 1 else 2
  (4 * mant - below, 4 * mant + 2)

/--
A decimal on the grid `10 ^ grid` that reads back as `mant * 2 ^ exp`: the nearer of the value's two
neighbours on the grid among those that do.
-/
def onGrid? (mant : Nat) (exp grid : Int) : Option Nat :=
  let (low, high) := roundingInterval mant exp
  -- one grid step is `step` and one interval unit is `unit` on a common integer scale
  let step := Nat.pow 10 grid.toNat * Nat.pow 2 (2 - exp).toNat
  let unit := Nat.pow 10 (-grid).toNat * Nat.pow 2 (exp - 2).toNat
  let value := 4 * mant * unit
  let reads (c : Nat) : Bool :=
    if mant % 2 = 0 then low * unit ≤ c * step && c * step ≤ high * unit
    else low * unit < c * step && c * step < high * unit
  let lower := value / step
  let upper := lower + 1
  match reads lower, reads upper with
  | true, true => some (if value - lower * step < upper * step - value then lower else upper)
  | true, false => some lower
  | false, true => some upper
  | false, false => none

/-- The shortest decimal `digits * 10 ^ exponent` of a positive finite double. -/
def shortest (mant : Nat) (exp : Int) : Nat × Int :=
  let (num, den) := scaleTwo mant 1 exp
  let lead := floorLogTen num den
  let found := (List.range 17).findSome? fun (n : Nat) =>
    (onGrid? mant exp (lead - n)).map (·, lead - (n : Int))
  match found with
  | some (digits, e) => if digits % 10 = 0 then (digits / 10, e + 1) else (digits, e)
  | none => (mant, 0)

/-- `digits * 10 ^ exp` written without an exponent. -/
def positional (digits : Nat) (exp : Int) : List Char :=
  let ds := Nat.toDigits 10 digits
  if 0 ≤ exp then ds ++ List.replicate exp.toNat '0'
  else
    let places := (-exp).toNat
    if places < ds.length then ds.take (ds.length - places) ++ '.' :: ds.drop (ds.length - places)
    else '0' :: '.' :: List.replicate (places - ds.length) '0' ++ ds

/-- The digits of the magnitude `mant * 2 ^ exp`. -/
def magnitudeText (mant : Nat) (exp : Int) : List Char :=
  if mant = 0 then ['0']
  else
    let (digits, e) := shortest mant exp
    positional digits e

/-- The texts a format uses for what is not a decimal, and whether a zero shows its sign. -/
structure Spelling where
  nan : String
  infinity : String
  signedZero : Bool

/-- A number as text, under the given spelling. -/
def render (spelling : Spelling) (x : Float) : String :=
  match view x with
  | .nan => spelling.nan
  | .infinite negative => if negative then "-" ++ spelling.infinity else spelling.infinity
  | .finite negative mant exp =>
    let shown := negative && (mant != 0 || spelling.signedZero)
    String.ofList (if shown then '-' :: magnitudeText mant exp else magnitudeText mant exp)

/-- Numbers as scripts show them: both zeros are `0`. -/
def scriptSpelling : Spelling := ⟨"NaN", "Infinity", false⟩

/-- Numbers as the inspection of a value shows them: the sign of a zero is visible. -/
def inspectSpelling : Spelling := ⟨"NaN", "inf", true⟩

/-- The text of a number in scripts and in generated code. -/
def text (x : Float) : String := render scriptSpelling x

end Staging.Number
