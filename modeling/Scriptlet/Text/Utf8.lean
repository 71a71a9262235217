/-!
# `Text.Utf8` — bytes read as characters, one draw at a time

A file that should be a text may hold bytes that are none. Reading it is a sequence of draws, each of
which takes at least one byte and gives a character or a fault; a byte at which a character breaks off
is left to the next draw.

## Contents
- `Draw`: what one draw gives.
- `lead?`, `isTail`, `spelled`: the bytes of a character and what they spell together.
- `follow`: the bytes after the first one of a character, `draw`: a whole character.
- `draws`: a whole file. Every draw leaves fewer bytes than it found (`length_draw_lt`).
-/

namespace Scriptlet.Utf8

/-- What one draw gives. -/
inductive Draw where
  | char (c : Char)
  /-- A byte that cannot stand where it stands, or bytes that spell no character. -/
  | invalid
  /-- The end of the file inside a character. -/
  | cutOff
deriving DecidableEq, Repr

/-- The character drawn. -/
def Draw.char? : Draw → Option Char
  | char c => some c
  | _ => none

/-- The first byte's share of the code point and how many bytes must follow; nothing for a byte that
    starts no character. -/
def lead? (b : Nat) : Option (Nat × Nat) :=
  if b < 0x80 then some (b, 0)
  else if b < 0xc0 then none
  else if b < 0xe0 then some (b - 0xc0, 1)
  else if b < 0xf0 then some (b - 0xe0, 2)
  else if b < 0xf8 then some (b - 0xf0, 3)
  else none

/-- Whether a byte continues a character. -/
def isTail (b : UInt8) : Bool := 0x80 ≤ b && b < 0xc0

/-- The least code point that needs `n` bytes after the first one. -/
def least : Nat → Nat
  | 0 => 0
  | 1 => 0x80
  | 2 => 0x800
  | _ => 0x10000

/-- What `n` bytes after a first one spell. A form longer than it has to be spells nothing, and
    neither does a code point that is no character's. -/
def spelled (n code : Nat) : Draw :=
  if least n ≤ code && decide code.isValidChar then .char (Char.ofNat code) else .invalid

/-- Reads the bytes that must follow a first one, still `missing` of `n`; `code` is the share of those
    before. What they spell is judged when all of them are there. Gives the draw and the bytes after
    it. -/
def follow (n : Nat) (code : Nat) : Nat → List UInt8 → Draw × List UInt8
  | 0, bytes => (spelled n code, bytes)
  | _ + 1, [] => (.cutOff, [])
  | missing + 1, b :: bytes =>
    if isTail b then follow n (code * 64 + (b.toNat - 0x80)) missing bytes
    else (.invalid, b :: bytes)

/-- Draws once from bytes that start with `b`. -/
def draw (b : UInt8) (bytes : List UInt8) : Draw × List UInt8 :=
  match lead? b.toNat with
  | some (code, n) => follow n code n bytes
  | none => (.invalid, bytes)

theorem length_follow_le (n code missing : Nat) (bytes : List UInt8) :
    (follow n code missing bytes).2.length ≤ bytes.length := by
  fun_induction follow n code missing bytes with
  | case1 => exact Nat.le_refl _
  | case2 => exact Nat.le_refl _
  | case3 _ _ _ _ _ ih => exact Nat.le_succ_of_le ih
  | case4 => exact Nat.le_refl _

/-- A draw takes at least the first byte. -/
theorem length_draw_lt (b : UInt8) (bytes : List UInt8) :
    (draw b bytes).2.length < (b :: bytes).length := by
  unfold draw
  split
  · exact Nat.lt_succ_of_le (length_follow_le _ _ _ _)
  · exact Nat.lt_succ_self _

/-- All draws that a file gives. -/
def draws : List UInt8 → List Draw
  | [] => []
  | b :: bytes => (draw b bytes).1 :: draws (draw b bytes).2
termination_by bytes => bytes.length
decreasing_by exact length_draw_lt b bytes

end Scriptlet.Utf8
