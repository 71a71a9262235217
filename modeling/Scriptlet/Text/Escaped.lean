import Scriptlet.Text.Classes

/-!
# `Text.Escaped` — text shown so that every character can be told

Messages and listings show a text between quotes with what cannot be seen spelled out: the usual
backslash forms for the common controls, `\u` and the hexadecimal code point in braces for other
unprintable characters and for combining marks. The quote that closes the form is escaped and the
other kind of quote is not.
-/

namespace Scriptlet.Text

/-- The hexadecimal digits of `n`, without leading zeros. -/
def hexDigits (n : Nat) : List Char := Nat.toDigits 16 n

/-- One character between quotes of the kind `mark`. -/
def escapedChar (mark : Char) (c : Char) : List Char :=
  if c = '\x00' then ['\\', '0']
  else if c = '\t' then ['\\', 't']
  else if c = '\r' then ['\\', 'r']
  else if c = '\n' then ['\\', 'n']
  else if c = '\\' then ['\\', '\\']
  else if c = mark then ['\\', mark]
  else if combining.has c || unprintable.has c then
    ['\\', 'u', '\x7b'] ++ hexDigits c.toNat ++ ['\x7d']
  else [c]

/-- A text between double quotes. -/
def escaped (s : String) : String :=
  String.ofList ('"' :: (s.toList.flatMap (escapedChar '"') ++ ['"']))

/-- One character between single quotes. -/
def escapedOne (c : Char) : String :=
  String.ofList ('\x27' :: (escapedChar '\x27' c ++ ['\x27']))

/-- A list of texts in brackets, separated by a comma and a space. -/
def escapedList (names : List String) : String :=
  "[" ++ String.intercalate ", " (names.map escaped) ++ "]"

end Scriptlet.Text
