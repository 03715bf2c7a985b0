import Staging.Number.Shortest

/-!
Numbers with a fixed count of decimal places. The exact binary value is rounded, a half going to the
even neighbour, and a negative number keeps its sign even when all digits vanish.
-/

namespace Staging.Number

/-- The magnitude `num / den` with `places` decimals. -/
def fixedText (num den places : Nat) : List Char :=
  let scaled := roundHalfEven (num * Nat.pow 10 places) den
  let digits := Nat.toDigits 10 scaled
  let padded := List.replicate (places + 1 - digits.length) '0' ++ digits
  if places = 0 then padded
  else padded.take (padded.length - places) ++ '.' :: padded.drop (padded.length - places)

/-- A number with exactly `places` decimals. -/
def fixed (x : Float) (places : Nat) : String :=
  match view x with
  | .finite negative mant exp =>
    let (num, den) := scaleTwo mant 1 exp
    let digits := fixedText num den places
    String.ofList (if negative then '-' :: digits else digits)
  | _ => render inspectSpelling x

end Staging.Number
