import Scriptlet.Eval.Error
import Scriptlet.Value.Basic

/-!
# `Eval.Sequence` — places in arrays and strings

A place is counted from the front, or from the back where it is negative. A string is the sequence of
its characters, so each operation is one function on lists and serves both.

## Contents
- `element?`: the place of an element, `slot?`: a place to insert at, which may also be the end.
- `Sequence`: an array's elements or a string's characters.
-/

namespace Scriptlet.Eval

/-- The place that a position means in a sequence of `n`, whether or not it has one. -/
def placeOf (position : Int64) (n : Nat) : Int :=
  if position < 0 then position.toInt + n else position.toInt

/-- The place of an element. -/
def element? (position : Int64) (n : Nat) : Option Nat :=
  let place := placeOf position n
  if 0 ≤ place && place < n then some place.toNat else none

/-- The place to insert at. -/
def slot? (position : Int64) (n : Nat) : Option Nat :=
  let place := placeOf position n
  if 0 ≤ place && place ≤ n then some place.toNat else none

theorem element?_lt {position : Int64} {n i : Nat} (h : element? position n = some i) : i < n := by
  unfold element? at h
  dsimp only at h
  split at h
  · simp_all
    omega
  · simp at h

theorem slot?_le {position : Int64} {n i : Nat} (h : slot? position n = some i) : i ≤ n := by
  unfold slot? at h
  dsimp only at h
  split at h
  · simp_all
    omega
  · simp at h

/-- What can be taken apart: the elements of an array or the characters of a string. -/
inductive Sequence where
  | elements (vs : List Value)
  | characters (cs : List Char)

/-- A string of one character. -/
def oneChar (c : Char) : Value := .str (String.singleton c)

/-- The sequence that a value is. -/
def Sequence.ofValue? : Value → Option Sequence
  | .array _ vs => some (.elements vs)
  | .str s => some (.characters s.toList)
  | _ => none

end Scriptlet.Eval
