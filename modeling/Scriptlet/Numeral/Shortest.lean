/-!
# `Numeral.Shortest` — the fewest digits that identify a binary number

The value `m · 2 ^ q` stands for every real number that rounds to it: from halfway to the number
below up to halfway to the number above, the two ends counting exactly where `m` is even. Of the
decimal numbers in this interval one with the fewest digits is chosen, and of those the nearest.

The search goes through grids of decimal numbers with one digit, two digits and so on. A grid holds
a number of the interval only if it holds one of the value's two neighbours on the grid, so two tests
settle each grid. All comparisons are exact, by cross-multiplying natural numbers.

## Contents
- `Interval`: a value with the two ends of its interval, over one denominator.
- `Interval.shortest`: the digits chosen.
- `Binary64`: the parts of a 64-bit float.
-/

namespace Scriptlet.Numeral

/-- The decimal number `digits · 10 ^ exponent`. -/
structure Decimal where
  digits : Nat
  exponent : Int
deriving DecidableEq, Repr, Inhabited

/-- Which of two decimals at the same distance is chosen. -/
inductive Tie where
  | up
  | even
deriving DecidableEq, Repr

/-- A value and the ends of the interval of reals that round to it, as multiples of
    `1 / denominator`. -/
structure Interval where
  low : Nat
  value : Nat
  high : Nat
  denominator : Nat
  /-- Whether the two ends belong to the interval. -/
  closed : Bool
deriving Repr

namespace Interval

/-- The interval of `m · 2 ^ q`. Below a power of two the numbers lie twice as dense, so the lower
    half of the interval is `narrow` there. -/
def ofBinary (m : Nat) (q : Int) (narrow : Bool) : Interval :=
  let scale := Nat.pow 2 q.toNat
  { low := (4 * m - (if narrow then 1 else 2)) * scale
    value := 4 * m * scale
    high := (4 * m + 2) * scale
    denominator := 4 * Nat.pow 2 (-q).toNat
    closed := m % 2 == 0 }

/-- The interval in units of `10 ^ k`. -/
def inUnits (i : Interval) (k : Int) : Interval :=
  let up := Nat.pow 10 (-k).toNat
  { i with
    low := i.low * up
    value := i.value * up
    high := i.high * up
    denominator := i.denominator * Nat.pow 10 k.toNat }

/-- Whether the whole number `d` lies in the interval. -/
def holds (i : Interval) (d : Nat) : Bool :=
  let x := d * i.denominator
  if i.closed then i.low ≤ x && x ≤ i.high else i.low < x && x < i.high

/-- The whole number of the interval next to the value, if there is one. -/
def nearestWhole? (i : Interval) (tie : Tie) : Option Nat :=
  let below := i.value / i.denominator
  let above := below + 1
  match i.holds below, i.holds above with
  | false, false => none
  | true, false => some below
  | false, true => some above
  | true, true =>
    match compare (2 * i.value) ((below + above) * i.denominator) with
    | .lt => some below
    | .gt => some above
    | .eq => match tie with
      | .up => some above
      | .even => some (if below % 2 = 0 then below else above)

/-- The number of decimal digits of a natural number. -/
def digitCount (n : Nat) : Nat := (Nat.toDigits 10 n).length

/-- The least power of ten above the value, `10 ^ place` with `10 ^ (place - 1) ≤ value`. -/
def place (i : Interval) : Int :=
  if i.denominator ≤ i.value then digitCount (i.value / i.denominator)
  else 1 - (digitCount ((i.denominator - 1) / i.value) : Int)

/-- The number without the zeros at the end of its digits. -/
def stripZeros : Nat → Decimal → Decimal
  | 0, d => d
  | fuel + 1, d =>
    if d.digits ≠ 0 && d.digits % 10 = 0 then
      stripZeros fuel ⟨d.digits / 10, d.exponent + 1⟩
    else d

/-- The shortest decimal of the interval. Seventeen digits always suffice for a 64-bit float. -/
def shortest (i : Interval) (tie : Tie) : Decimal :=
  let hit? := (List.range 17).findSome? fun (n : Nat) =>
    let k := i.place - (n + 1)
    ((i.inUnits k).nearestWhole? tie).map fun d => (⟨d, k⟩ : Decimal)
  let hit := hit?.getD ⟨i.value, 0⟩
  stripZeros (digitCount hit.digits) hit

end Interval

/-! ## Sixty-four bits -/

/-- What a 64-bit float is: the finite ones are `m · 2 ^ q` with a sign. -/
inductive Binary64 where
  | nan
  | infinite (negative : Bool)
  | finite (negative : Bool) (m : Nat) (q : Int) (narrow : Bool)
deriving DecidableEq, Repr

/-- Takes the bits apart: a sign, eleven bits of exponent, fifty-two of fraction. -/
def Binary64.ofFloat (x : Float) : Binary64 :=
  let bits : Nat := x.toBits.toNat
  let hidden : Nat := Nat.pow 2 52
  let negative := bits / Nat.pow 2 63 = 1
  let exponent : Nat := bits / hidden % 2048
  let fraction : Nat := bits % hidden
  if exponent = 2047 then if fraction = 0 then .infinite negative else .nan
  else if exponent = 0 then .finite negative fraction (-1074) false
  else
    .finite negative (hidden + fraction) ((exponent : Int) - 1075) (fraction = 0 && exponent > 1)

end Scriptlet.Numeral
