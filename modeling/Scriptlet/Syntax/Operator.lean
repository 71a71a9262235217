/-!
# `Syntax.Operator` — the operators and how tightly they bind

## Contents
- `Precedence`: fifteen levels, from `lowest` to `call`, ordered by `rank`.
- `UnaryOp` and `BinaryOp`: the two operators written before an operand and the nineteen written
  between two.
- `BinaryOp.rightPrecedence`: the level that the right operand has to exceed. It is the operator's
  own level, so that equal levels group to the left, and one level less for the power, which groups
  to the right.
-/

namespace Scriptlet

/-! ## Levels -/

/-- How tightly a construct binds. The two levels for bitwise *or* and *and* belong to no
    operator. -/
inductive Precedence where
  | lowest
  | assign
  | logicalOr
  | logicalAnd
  | equality
  | comparison
  | bitOr
  | bitXor
  | bitAnd
  | shift
  | sum
  | product
  | power
  | unary
  | call
deriving DecidableEq, Repr, Inhabited

/-- The place of the level, counted from the loosest. -/
def Precedence.rank : Precedence → Nat
  | .lowest => 0
  | .assign => 1
  | .logicalOr => 2
  | .logicalAnd => 3
  | .equality => 4
  | .comparison => 5
  | .bitOr => 6
  | .bitXor => 7
  | .bitAnd => 8
  | .shift => 9
  | .sum => 10
  | .product => 11
  | .power => 12
  | .unary => 13
  | .call => 14

/-- The level of a rank; ranks beyond the last level mean the last. -/
def Precedence.ofRank : Nat → Precedence
  | 0 => .lowest
  | 1 => .assign
  | 2 => .logicalOr
  | 3 => .logicalAnd
  | 4 => .equality
  | 5 => .comparison
  | 6 => .bitOr
  | 7 => .bitXor
  | 8 => .bitAnd
  | 9 => .shift
  | 10 => .sum
  | 11 => .product
  | 12 => .power
  | 13 => .unary
  | _ => .call

theorem Precedence.ofRank_rank (p : Precedence) : ofRank p.rank = p := by cases p <;> rfl

/-! ## Operators -/

/-- An operator written before its operand. -/
inductive UnaryOp where
  | neg
  | not
deriving DecidableEq, Repr, Inhabited

/-- An operator written between its operands. -/
inductive BinaryOp where
  | assign
  | or
  | and
  | equal
  | notEqual
  | less
  | lessEqual
  | greater
  | greaterEqual
  | bitXor
  | shiftLeft
  | shiftRight
  | add
  | sub
  | mul
  | div
  | floorDiv
  | rem
  | pow
deriving DecidableEq, Repr, Inhabited

/-- The operator as written. -/
def UnaryOp.text : UnaryOp → String
  | .neg => "-"
  | .not => "!"

namespace BinaryOp

/-- Every operator, from the loosest level to the tightest. -/
def all : List BinaryOp :=
  [.assign, .or, .and, .equal, .notEqual, .less, .lessEqual, .greater, .greaterEqual, .bitXor,
   .shiftLeft, .shiftRight, .add, .sub, .mul, .div, .floorDiv, .rem, .pow]

theorem mem_all (op : BinaryOp) : op ∈ all := by cases op <;> decide

/-- The operator as written. -/
def text : BinaryOp → String
  | .assign => "="
  | .or => "||"
  | .and => "&&"
  | .equal => "=="
  | .notEqual => "!="
  | .less => "<"
  | .lessEqual => "<="
  | .greater => ">"
  | .greaterEqual => ">="
  | .bitXor => "^"
  | .shiftLeft => "<<"
  | .shiftRight => ">>"
  | .add => "+"
  | .sub => "-"
  | .mul => "*"
  | .div => "/"
  | .floorDiv => "//"
  | .rem => "%"
  | .pow => "**"

/-- How tightly the operator binds. -/
def precedence : BinaryOp → Precedence
  | .assign => .assign
  | .or => .logicalOr
  | .and => .logicalAnd
  | .equal | .notEqual => .equality
  | .less | .lessEqual | .greater | .greaterEqual => .comparison
  | .bitXor => .bitXor
  | .shiftLeft | .shiftRight => .shift
  | .add | .sub => .sum
  | .mul | .div | .floorDiv | .rem => .product
  | .pow => .power

/-- Whether a chain of the operator groups to the right. -/
def rightAssociative (op : BinaryOp) : Bool := op = .pow

/-- The level that an operator inside the right operand has to exceed. -/
def rightPrecedence (op : BinaryOp) : Precedence :=
  if op.rightAssociative then .product else op.precedence

/-- Every operator binds more tightly than `lowest` and more loosely than a unary operator. -/
theorem rank_precedence_bounds (op : BinaryOp) :
    Precedence.lowest.rank < op.precedence.rank ∧ op.precedence.rank < Precedence.unary.rank := by
  cases op <;> decide

end BinaryOp

end Scriptlet
