/-!
# `Text.Quoted` — the written form of a string literal

A string literal stands between double quotes. Four characters are written with a backslash (the
backslash itself, the double quote, the line break and the tab); every other character stands for
itself. Reading is the lexer's part (`Token.Lexer`).
-/

namespace Scriptlet.Text

/-- One character of a string literal as it is written. -/
def quotedChar : Char → List Char
  | '\\' => ['\\', '\\']
  | '"' => ['\\', '"']
  | '\n' => ['\\', 'n']
  | '\t' => ['\\', 't']
  | c => [c]

/-- The characters of a string literal with its quotes. -/
def quotedChars (cs : List Char) : List Char :=
  '"' :: (cs.flatMap quotedChar ++ ['"'])

/-- The string literal that denotes `s`. -/
def quote (s : String) : String := String.ofList (quotedChars s.toList)

/-- The list form of `quote`. -/
theorem toList_quote (s : String) : (quote s).toList = quotedChars s.toList := by
  simp [quote]

end Scriptlet.Text
