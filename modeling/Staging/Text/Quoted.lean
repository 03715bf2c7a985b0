/-!
Quoted text: the literal a string is written as.

A literal is the string between double quotes, with the quote, the backslash and every control
character below U+0020 escaped. Everything else stands for itself, line separators and characters
outside ASCII included, so a literal is exactly as readable as its content.
-/

namespace Staging.Text.Quoted

/-- A hexadecimal digit in lower case; arguments from 16 on give `f`. -/
def hexDigit (n : Nat) : Char :=
  if n < 10 then Char.ofNat (48 + n) else Char.ofNat (87 + min n 15)

/-- What one character is written as inside a literal. -/
def escape (c : Char) : List Char :=
  if c = '"' then ['\\', '"']
  else if c = '\\' then ['\\', '\\']
  else if c = '\n' then ['\\', 'n']
  else if c = '\r' then ['\\', 'r']
  else if c = '\t' then ['\\', 't']
  else if c = '\x08' then ['\\', 'b']
  else if c = '\x0c' then ['\\', 'f']
  else if c.toNat < 0x20 then ['\\', 'u', '0', '0', hexDigit (c.toNat / 16), hexDigit (c.toNat % 16)]
  else [c]

/-- The characters that are escaped with one more character, and this character. -/
def shortEscapes : List (Char × Char) :=
  [('"', '"'), ('\\', '\\'), ('\n', 'n'), ('\r', 'r'), ('\t', 't'), ('\x08', 'b'), ('\x0c', 'f')]

theorem escape_of_short : ∀ p ∈ shortEscapes, escape p.1 = ['\\', p.2] := by
  decide

/-- A character is written with a short escape, by its code point, or as it is. -/
theorem escape_cases (c : Char) :
    (∃ e, (c, e) ∈ shortEscapes ∧ escape c = ['\\', e]) ∨
      (c.toNat < 0x20 ∧
        escape c = ['\\', 'u', '0', '0', hexDigit (c.toNat / 16), hexDigit (c.toNat % 16)]) ∨
      (c ≠ '"' ∧ c ≠ '\\' ∧ 0x20 ≤ c.toNat ∧ escape c = [c]) := by
  by_cases short : ∃ e, (c, e) ∈ shortEscapes
  · obtain ⟨e, short⟩ := short
    exact .inl ⟨e, short, escape_of_short _ short⟩
  right
  have long : ∀ p ∈ shortEscapes, c ≠ p.1 := fun p inside same => short ⟨p.2, same ▸ inside⟩
  simp only [shortEscapes, List.forall_mem_cons] at long
  obtain ⟨quote, slash, line, ret, tab, back, feed, -⟩ := long
  rw [escape, if_neg quote, if_neg slash, if_neg line, if_neg ret, if_neg tab, if_neg back, if_neg feed]
  by_cases low : c.toNat < 0x20
  · exact .inl ⟨low, if_pos low⟩
  · exact .inr ⟨quote, slash, Nat.le_of_not_lt low, if_neg low⟩

/-- The literal of a text, given as its characters. -/
def encodeChars (cs : List Char) : List Char :=
  '"' :: cs.flatMap escape ++ ['"']

/-- The literal of a text. -/
def encode (text : String) : String :=
  String.ofList (encodeChars text.toList)

theorem toList_encode (text : String) : (encode text).toList = encodeChars text.toList :=
  String.toList_ofList

end Staging.Text.Quoted
