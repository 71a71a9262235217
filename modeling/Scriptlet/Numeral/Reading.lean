import Scriptlet.Numeral.Integer

/-!
# `Numeral.Reading` — floats as they are spelled

A float is an optional sign before `inf`, `infinity` or `nan` in any case, or before decimal digits
with at most one point among them and an optional exponent. One digit at least stands before the
exponent and one in it.

The value is the float nearest to the decimal number. An exponent beyond what any float needs is
settled by the number of digits alone, so that no power of ten is larger than it has to be.
-/

namespace Scriptlet.Numeral

/-- The parts of a decimal spelling: all its digits, how many of them stand after the point, and the
    exponent. -/
structure Spelling where
  digits : List Char
  places : Nat
  exponent : Int

/-- An exponent without the letter before it. -/
def readExponent? (cs : List Char) : Option Int :=
  let (negative, digits) := splitSign cs
  (digitsValue? 10 digits).map fun n => if negative then -(n : Int) else (n : Int)

/-- The exponent at the end of a spelling, which may be missing. -/
def readExponentPart? : List Char → Option Int
  | [] => some 0
  | c :: cs => if c = 'e' || c = 'E' then readExponent? cs else none

/-- An unsigned decimal spelling. -/
def Spelling.ofChars? (cs : List Char) : Option Spelling :=
  let whole := cs.takeWhile Char.isDigit
  let afterWhole := cs.dropWhile Char.isDigit
  let (fraction, tail) := match afterWhole with
    | '.' :: r => (r.takeWhile Char.isDigit, r.dropWhile Char.isDigit)
    | r => ([], r)
  if whole.isEmpty && fraction.isEmpty then none
  else (readExponentPart? tail).map fun e => ⟨whole ++ fraction, fraction.length, e⟩

/-- The float nearest to the number spelled. From `10 ^ 400` up that is infinity, and below
    `10 ^ -400` it is zero. -/
def Spelling.value (s : Spelling) : Float :=
  let m := (digitsValue? 10 s.digits).getD 0
  let e := s.exponent - s.places
  let place := s.digits.length + e
  if m = 0 then 0
  else if 400 < e then 1 / 0
  else if place < -400 then 0
  else Float.ofScientific m (e < 0) e.natAbs

/-- Words for the floats that digits cannot spell. -/
def specialFloat? (cs : List Char) : Option Float :=
  let word := String.ofList (cs.map Char.toLower)
  if word = "inf" || word = "infinity" then some (1 / 0)
  else if word = "nan" then some (0 / 0)
  else none

/-- The float that a text spells. -/
def readFloat (text : String) : Option Float :=
  let (negative, unsigned) := splitSign text.toList
  let magnitude? := (specialFloat? unsigned).or ((Spelling.ofChars? unsigned).map Spelling.value)
  magnitude?.map fun x => if negative then -x else x

end Scriptlet.Numeral
