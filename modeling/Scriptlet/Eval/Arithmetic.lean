import Scriptlet.Eval.Error
import Scriptlet.Numeral.Remainder
import Scriptlet.Value.Equality

/-!
# `Eval.Arithmetic` — what the operators compute

Two integers are computed on 64 bits in two's complement. As soon as one of two numbers is a float,
both are taken as floats. Two strings can be joined and compared. All other values can only be
compared for equality.

## Contents
- `floorDiv`, `power`: the integer operations that the fixed width does not bring along.
- `integerOp`, `floatOp`, `stringOp`, and `applyBinary` and `applyUnary` over all values.
-/

namespace Scriptlet.Eval

/-! ## Integers -/

/-- The quotient rounded down. Division cuts the fraction off, so the quotient is one too large where
    the remainder is not zero and has another sign than the divisor. -/
def floorDiv (a b : Int64) : Int64 :=
  if a % b ≠ 0 && decide (a % b < 0) != decide (b < 0) then a / b - 1 else a / b

/-- A power by repeated squaring. -/
def power (base : Int64) (exponent : Nat) : Int64 :=
  if exponent = 0 then 1
  else if exponent % 2 = 1 then base * power (base * base) (exponent / 2)
  else power (base * base) (exponent / 2)
termination_by exponent

/-- An operator on two integers. -/
def integerOp (op : BinaryOp) (a b : Int64) : Except RuntimeError Value :=
  match op with
  | .add => .ok (.int (a + b))
  | .sub => .ok (.int (a - b))
  | .mul => .ok (.int (a * b))
  | .div => if b = 0 then .error (.divisionByZero .div) else .ok (.int (a / b))
  | .floorDiv => if b = 0 then .error (.divisionByZero .floorDiv) else .ok (.int (floorDiv a b))
  | .rem => if b = 0 then .error (.divisionByZero .rem) else .ok (.int (a % b))
  | .pow => if b < 0 then .error (.negativeExponent b) else .ok (.int (power a b.toInt.toNat))
  | .shiftLeft =>
    if 0 ≤ b && b < 64 then .ok (.int (a <<< b)) else .error (.shiftOutOfRange b)
  | .shiftRight =>
    if 0 ≤ b && b < 64 then .ok (.int (a >>> b)) else .error (.shiftOutOfRange b)
  | .bitXor => .ok (.int (a ^^^ b))
  | .less => .ok (.bool (a < b))
  | .lessEqual => .ok (.bool (a ≤ b))
  | .greater => .ok (.bool (b < a))
  | .greaterEqual => .ok (.bool (b ≤ a))
  | .equal => .ok (.bool (a = b))
  | .notEqual => .ok (.bool (a ≠ b))
  | .assign | .and | .or => .error (.unknownBinary .integer op .integer)

/-! ## Floats and strings -/

/-- An operator on two floats; nothing for those that floats do not have. -/
def floatOp (op : BinaryOp) (x y : Float) : Option Value :=
  match op with
  | .add => some (.float (x + y))
  | .sub => some (.float (x - y))
  | .mul => some (.float (x * y))
  | .div => some (.float (x / y))
  | .floorDiv => some (.float (x / y).floor)
  | .rem => some (.float (Numeral.remainder x y))
  | .pow => some (.float (x.pow y))
  | .less => some (.bool (x < y))
  | .lessEqual => some (.bool (x ≤ y))
  | .greater => some (.bool (y < x))
  | .greaterEqual => some (.bool (y ≤ x))
  | .equal => some (.bool (x == y))
  | .notEqual => some (.bool (x != y))
  | _ => none

/-- An operator on two strings; nothing for those that strings do not have. -/
def stringOp (op : BinaryOp) (s t : String) : Option Value :=
  match op with
  | .add => some (.str (s ++ t))
  | .equal => some (.bool (s = t))
  | .notEqual => some (.bool (s ≠ t))
  | _ => none

/-! ## All values -/

/-- A number as a float. -/
def asFloat? : Value → Option Float
  | .int n => some n.toFloat
  | .float x => some x
  | _ => none

/-- An operator on two values that are neither two numbers nor two strings. -/
def otherOp (op : BinaryOp) (left right : Value) : Except RuntimeError Value :=
  match op with
  | .equal => .ok (.bool (left.identical right))
  | .notEqual => .ok (.bool (!left.identical right))
  | _ =>
    if left.kind = right.kind then .error (.unknownBinary left.kind op right.kind)
    else .error (.typeMismatch left.kind op right.kind)

/-- What an operator found, or the complaint that it has no meaning here. -/
def orUnknown (op : BinaryOp) (left right : Value) (result : Option Value) :
    Except RuntimeError Value :=
  match result with
  | some v => .ok v
  | none => .error (.unknownBinary left.kind op right.kind)

/-- An operator on two values. -/
def applyBinary (op : BinaryOp) (left right : Value) : Except RuntimeError Value :=
  match left, right with
  | .int a, .int b => integerOp op a b
  | .str s, .str t => orUnknown op left right (stringOp op s t)
  | _, _ =>
    match asFloat? left, asFloat? right with
    | some x, some y => orUnknown op left right (floatOp op x y)
    | _, _ => otherOp op left right

/-- An operator on one value. -/
def applyUnary (op : UnaryOp) (operand : Value) : Except RuntimeError Value :=
  match op, operand with
  | .not, v => .ok (.bool (!v.isTruthy))
  | .neg, .int n => .ok (.int (-n))
  | .neg, .float x => .ok (.float (-x))
  | .neg, v => .error (.unknownUnary .neg v.kind)

end Scriptlet.Eval
