import Staging.Text.Printable

/-!
Escaped text: how messages show a string. The string stands between double quotes; quotes,
backslashes and the common control characters are escaped by letter, every other unprintable
character by its code point in braces.
-/

namespace Staging.Text.Escaped

/-- What one character is shown as. -/
def escape (c : Char) : List Char :=
  if c = '"' then ['\\', '"']
  else if c = '\\' then ['\\', '\\']
  else if c = '\n' then ['\\', 'n']
  else if c = '\r' then ['\\', 'r']
  else if c = '\t' then ['\\', 't']
  else if c = '\x00' then ['\\', '0']
  else if isPrintable c then [c]
  else ['\\', 'u', '\x7b'] ++ Nat.toDigits 16 c.toNat ++ ['\x7d']

/-- The shown form of a text. -/
def encode (text : String) : String :=
  String.ofList ('"' :: text.toList.flatMap escape ++ ['"'])

end Staging.Text.Escaped
