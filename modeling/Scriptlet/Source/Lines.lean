import Scriptlet.Text.Width

/-!
# `Source.Lines` — a source text cut into lines

Every line keeps the line break that ends it, so the lines make up the text (`flatMap_chars_split`).
A text that ends with a line break has an empty last line; a text has at least one line.

## Contents
- `Line`, `Line.split`: the lines of a text with the bytes before each one.
- `Line.indexOf`: the line of a position, `Line.column`: its place on the line.
-/

namespace Scriptlet

/-- A line: the bytes before it, and its characters with the line break. -/
structure Line where
  start : Nat
  chars : List Char
deriving DecidableEq, Repr, Inhabited

namespace Line

/-- The lines of a text that starts at a position. -/
def split (start : Nat) : List Char → List Line
  | [] => [⟨start, []⟩]
  | c :: cs =>
    if c = '\n' then ⟨start, [c]⟩ :: split (start + c.utf8Size) cs
    else match split (start + c.utf8Size) cs with
      | [] => [⟨start, [c]⟩]
      | l :: ls => ⟨start, c :: l.chars⟩ :: ls

/-- The lines of a source text. -/
def ofSource (source : String) : List Line := split 0 source.toList

theorem split_ne_nil (start : Nat) (cs : List Char) : split start cs ≠ [] := by
  unfold split
  split
  · simp
  · split
    · simp
    · split <;> simp

/-- The lines make up the text. -/
theorem flatMap_chars_split (start : Nat) (cs : List Char) :
    (split start cs).flatMap Line.chars = cs := by
  fun_induction split start cs with
  | case1 => rfl
  | case2 start cs ih => simp [ih]
  | case3 start c cs h hnil ih => exact absurd hnil (split_ne_nil _ _)
  | case4 start c cs h l ls hcons ih =>
    rw [hcons] at ih
    simpa using ih

/-- The number, from zero, of the last line that starts at the position or before it. -/
def indexOf (lines : List Line) (position : Nat) : Nat :=
  (lines.takeWhile fun l => l.start ≤ position).length - 1

/-- The characters of the line that end at the position or before it. -/
def charsBefore (l : Line) (position : Nat) : Nat :=
  count l.start l.chars
where
  /-- Characters that end at the position or before it, in a text that starts at `start`. -/
  count (start : Nat) : List Char → Nat
    | [] => 0
    | c :: cs =>
      if start + c.utf8Size ≤ position then count (start + c.utf8Size) cs + 1 else 0

/-- The column of a position, counted in characters from one. -/
def column (l : Line) (position : Nat) : Nat := l.charsBefore position + 1

/-- Whether the character ends lines or only pads them. -/
def isEnding (c : Char) : Bool := c = '\n' || c = '\r' || c = '\x00'

/-- What of a line is shown: all but the line break and the padding before it. -/
def shown (l : Line) : List Char := (l.chars.reverse.dropWhile isEnding).reverse

end Line

end Scriptlet
