import Staging.Text.CaseTable

/-!
Upper and lower case of texts, by the full Unicode mappings: one character may become several, and a
capital sigma at the end of a word becomes the final small sigma.
-/

namespace Staging.Text

/-- Looks a code point up in a table of shifted ranges. -/
def shiftIn (table : List (Nat × Nat × Nat × Int)) (n : Nat) : Nat :=
  match table.find? fun (low, high, step, _) => low ≤ n && n ≤ high && (n - low) % step == 0 with
  | some (_, _, _, shift) => ((n : Int) + shift).toNat
  | none => n

/-- Whether a code point lies in one of the closed ranges. -/
def inRanges (ranges : List (Nat × Nat)) (c : Char) : Bool :=
  ranges.any fun (low, high) => low ≤ c.toNat && c.toNat ≤ high

/-- The upper case of a character. -/
def upperChar (c : Char) : List Char :=
  if c.toNat < 0x80 then [c.toUpper]
  else
    match upperExpansions.find? (·.1 == c.toNat) with
    | some (_, expansion) => expansion.map Char.ofNat
    | none => [Char.ofNat (shiftIn upperShifts c.toNat)]

/-- The lower case of a character, away from the end of a word. -/
def lowerChar (c : Char) : List Char :=
  if c.toNat < 0x80 then [c.toLower]
  else if c.toNat = 0x130 then ['i', '\u0307']
  else [Char.ofNat (shiftIn lowerShifts c.toNat)]

/-- Whether a letter with case comes first, once ignorable characters are skipped. -/
def startsCased (cs : List Char) : Bool :=
  match cs.dropWhile (inRanges caseIgnorableRanges) with
  | c :: _ => inRanges casedRanges c
  | [] => false

/-- Lower case from left to right; `before` holds what was already read, last character first. -/
def lowerFrom (before : List Char) : List Char → List Char
  | [] => []
  | c :: rest =>
    let mapped :=
      if c = 'Σ' then
        if startsCased before && !startsCased rest then ['ς'] else ['σ']
      else lowerChar c
    mapped ++ lowerFrom (c :: before) rest

/-- A text in upper case. -/
def upper (s : String) : String := String.ofList (s.toList.flatMap upperChar)

/-- A text in lower case. -/
def lower (s : String) : String := String.ofList (lowerFrom [] s.toList)

end Staging.Text
