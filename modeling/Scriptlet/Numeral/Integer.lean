/-!
# `Numeral.Integer` — integers as they are spelled

An integer is an optional sign and digits: hexadecimal after `0x`, octal after `0o`, binary after
`0b` (either case), octal after a leading `0` that is not alone, decimal otherwise. An underscore may
stand between two digits. Integers have 64 bits; a spelling beyond them has no value.

## Contents
- `splitSign`, `splitRadix`: the two parts before the digits.
- `digitsValue?`: the value of plain digits in a radix.
- `readInteger`: the value of a spelling.
-/

namespace Scriptlet.Numeral

/-- The value of a digit in a radix of at most sixteen. -/
def digitValue? (radix : Nat) (c : Char) : Option Nat :=
  let value? :=
    if '0' ≤ c && c ≤ '9' then some (c.toNat - '0'.toNat)
    else if 'a' ≤ c && c ≤ 'f' then some (c.toNat - 'a'.toNat + 10)
    else if 'A' ≤ c && c ≤ 'F' then some (c.toNat - 'A'.toNat + 10)
    else none
  value?.filter (· < radix)

/-- The value of digits that follow a number of value `high`. -/
def digitsValueFrom? (radix : Nat) (high : Nat) : List Char → Option Nat
  | [] => some high
  | c :: cs => (digitValue? radix c).bind fun d => digitsValueFrom? radix (high * radix + d) cs

/-- The value of one or more digits. -/
def digitsValue? (radix : Nat) (cs : List Char) : Option Nat :=
  if cs.isEmpty then none else digitsValueFrom? radix 0 cs

/-- Whether a sign makes the number negative, and what follows the sign. -/
def splitSign : List Char → Bool × List Char
  | '-' :: cs => (true, cs)
  | '+' :: cs => (false, cs)
  | cs => (false, cs)

/-- The radix that the beginning of an unsigned spelling announces, and the digits after it. -/
def splitRadix : List Char → Nat × List Char
  | '0' :: c :: cs =>
    if c = 'x' || c = 'X' then (16, cs)
    else if c = 'o' || c = 'O' then (8, cs)
    else if c = 'b' || c = 'B' then (2, cs)
    else (8, c :: cs)
  | cs => (10, cs)

/-- Whether every underscore stands between two other characters. -/
def underscoresSeparate : List Char → Bool
  | [] => true
  | ['_'] => false
  | '_' :: '_' :: _ => false
  | _ :: cs => underscoresSeparate cs

/-- The digits without the underscores between them; nothing if one stands elsewhere. -/
def dropSeparators? (cs : List Char) : Option (List Char) :=
  if cs.head? ≠ some '_' && underscoresSeparate cs then some (cs.filter (· ≠ '_')) else none

/-- The integers of 64 bits in two's complement. -/
def InRange (n : Int) : Prop := -9223372036854775808 ≤ n ∧ n ≤ 9223372036854775807

instance (n : Int) : Decidable (InRange n) := inferInstanceAs (Decidable (_ ∧ _))

/-- The value of a spelling, exactly. -/
def integerValue? (cs : List Char) : Option Int :=
  let (negative, unsigned) := splitSign cs
  let (radix, digits) := splitRadix unsigned
  (dropSeparators? digits).bind fun plain =>
    (digitsValue? radix plain).map fun n => if negative then -(n : Int) else (n : Int)

/-- The integer that a text spells. -/
def readInteger (text : String) : Option Int64 :=
  (integerValue? text.toList).bind fun n =>
    if InRange n then some (Int64.ofInt n) else none

end Scriptlet.Numeral
