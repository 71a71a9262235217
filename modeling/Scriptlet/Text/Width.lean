import Scriptlet.Text.Classes

/-!
# `Text.Width` — how much room text takes

## Contents
- `byteWidth`: bytes of the UTF-8 form, the unit of every position in a source text.
- `columnWidth`: columns of a fixed-width display, the unit of the marks under a source line.
-/

namespace Scriptlet.Text

/-- Bytes that the characters take in UTF-8. -/
def byteWidth : List Char → Nat
  | [] => 0
  | c :: cs => c.utf8Size + byteWidth cs

@[simp] theorem byteWidth_nil : byteWidth [] = 0 := rfl

@[simp] theorem byteWidth_cons (c : Char) (cs : List Char) :
    byteWidth (c :: cs) = c.utf8Size + byteWidth cs := rfl

theorem byteWidth_append (xs ys : List Char) :
    byteWidth (xs ++ ys) = byteWidth xs + byteWidth ys := by
  induction xs with
  | nil => simp
  | cons c cs ih => simp [ih, Nat.add_assoc]

/-- Every character takes at least one byte. -/
theorem length_le_byteWidth (cs : List Char) : cs.length ≤ byteWidth cs := by
  induction cs with
  | nil => simp
  | cons c cs ih =>
    have := c.utf8Size_pos
    simp only [List.length_cons, byteWidth_cons]
    omega

/-- Columns of one character other than a tab: none for controls and combining marks, two for wide
    characters. -/
def columnWidth (c : Char) : Nat :=
  if c.toNat < 0x20 || (0x7f ≤ c.toNat && c.toNat < 0xa0) then 0
  else if combining.has c || (unprintable.has c && 0x200b ≤ c.toNat && c.toNat ≤ 0x206f)
      || c.toNat = 0xfeff then 0
  else if wide.has c then 2
  else 1

end Scriptlet.Text
