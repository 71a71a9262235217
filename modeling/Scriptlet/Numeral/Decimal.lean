import Scriptlet.Numeral.Shortest

/-!
# `Numeral.Decimal` — how a float is written

The digits are those of `Numeral.Shortest`. A `Style` holds the decisions of a format: which way an
exact tie between two shortest numbers goes, between which places the point is written out, and
whether a whole number keeps a point and a zero.

## Contents
- `Style`, `Decimal.layout`: laying digits out.
- `plainStyle`: the style of values, never with an exponent. `floatText` adds the texts of the
  numbers that are not finite.
- `jsonStyle`: the style of numbers in JSON text.
-/

namespace Scriptlet.Numeral

/-- The decisions of a number format. The *place* of a number is the place of its point: the number
    lies below `10 ^ place` and not below `10 ^ (place - 1)`. -/
structure Style where
  tie : Tie
  /-- The places written without an exponent; all of them where there are no limits. -/
  positional : Option (Int × Int)
  /-- Whether a whole number ends in a point and a zero. -/
  keepsPoint : Bool

/-- The text of a float value: no exponent, no point in a whole number. -/
def plainStyle : Style := ⟨.up, none, false⟩

/-- The text of a number in JSON: an exponent from `1e16` up and below `1e-5`, and a point in whole
    numbers without one. -/
def jsonStyle : Style := ⟨.even, some (-4, 16), true⟩

/-- Digits with a point at a place, zeros filling the gap. -/
def positional (keepsPoint : Bool) (digits : List Char) (place : Int) : List Char :=
  let n : Int := digits.length
  if n ≤ place then
    digits ++ List.replicate (place - n).toNat '0' ++ (if keepsPoint then ['.', '0'] else [])
  else if 0 < place then digits.take place.toNat ++ '.' :: digits.drop place.toNat
  else ['0', '.'] ++ List.replicate (-place).toNat '0' ++ digits

/-- Digits with a point after the first one and a signed exponent. -/
def scientific (digits : List Char) (place : Int) : List Char :=
  let fraction := if digits.tail.isEmpty then [] else '.' :: digits.tail
  let exponent := place - 1
  digits.take 1 ++ fraction ++ 'e' :: (if exponent < 0 then '-' else '+')
    :: Nat.toDigits 10 exponent.natAbs

/-- The text of a positive decimal in a style. -/
def Decimal.layout (style : Style) (d : Decimal) : List Char :=
  let digits := Nat.toDigits 10 d.digits
  let place := digits.length + d.exponent
  match style.positional with
  | none => positional style.keepsPoint digits place
  | some (low, high) =>
    if low ≤ place && place ≤ high then positional style.keepsPoint digits place
    else scientific digits place

/-- The text of a finite float in a style; nothing for the others. -/
def finiteText? (style : Style) (x : Float) : Option String :=
  match Binary64.ofFloat x with
  | .nan | .infinite _ => none
  | .finite negative m q narrow =>
    let body :=
      if m = 0 then '0' :: (if style.keepsPoint then ['.', '0'] else [])
      else ((Interval.ofBinary m q narrow).shortest style.tie).layout style
    some (String.ofList (if negative then '-' :: body else body))

/-- The text of a float value. -/
def floatText (x : Float) : String :=
  match finiteText? plainStyle x, Binary64.ofFloat x with
  | some text, _ => text
  | none, .infinite negative => if negative then "-inf" else "inf"
  | none, _ => "NaN"

end Scriptlet.Numeral
