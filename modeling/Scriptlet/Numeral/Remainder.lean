import Scriptlet.Numeral.Shortest

/-!
# `Numeral.Remainder` — the exact remainder of two floats

For finite `x` and nonzero `y` the remainder is `x - n · y`, where `n` is the quotient with its
fraction cut off. It is smaller than `y`, has the sign of `x`, and is a float, so it is computed
without rounding: both operands are brought to the smaller exponent and divided as natural numbers.
-/

namespace Scriptlet.Numeral

/-- The float `m · 2 ^ q`, for a value that is one. -/
def ofBinary (m : Nat) (q : Int) : Float := (Float.ofNat m).scaleB q

/-- The remainder of `x` by `y`, with the sign of `x`. There is none where `x` is infinite or `y` is
    zero, and an infinite `y` leaves `x`. -/
def remainder (x y : Float) : Float :=
  match Binary64.ofFloat x, Binary64.ofFloat y with
  | .nan, _ | _, .nan | .infinite _, _ => 0 / 0
  | .finite .., .infinite _ => x
  | .finite negative m q _, .finite _ n p _ =>
    if n = 0 then 0 / 0
    else
      let low := min q p
      let rest := (m * Nat.pow 2 (q - low).toNat) % (n * Nat.pow 2 (p - low).toNat)
      let size := ofBinary rest low
      if negative then -size else size

end Scriptlet.Numeral
