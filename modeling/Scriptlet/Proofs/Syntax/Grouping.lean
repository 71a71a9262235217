import Scriptlet.Syntax.Layout

/-!
# `Proofs.Syntax.Grouping` — which operands stand without parentheses

An operand is read on its own only if no operator around it takes a part of it away. Two numbers of an
expression decide this: the operators on its left have to bind less tightly than its head, those on
its right no more tightly than its tail. The canonical form leaves parentheses out exactly where these
numbers allow it.

## Contents
- `Expr.head`, `Expr.tail`: the two numbers.
- `head_tail_of_left`, `head_tail_of_right`: an operand without parentheses is out of reach.
- `needsParens_left_iff` and the like: exactly the operands that are out of reach stand without
  parentheses.
-/

namespace Scriptlet

namespace BinaryOp

/-- Only the power lowers its level on the right. -/
theorem rank_rightPrecedence (op : BinaryOp) :
    op.rightPrecedence.rank = if op = .pow then 11 else op.precedence.rank := by
  cases op <;> rfl

/-- The power is alone on its level. -/
theorem rank_eq_twelve_iff (op : BinaryOp) : op.precedence.rank = 12 ↔ op = .pow := by
  cases op <;> decide

theorem rank_le_twelve (op : BinaryOp) : op.precedence.rank ≤ 12 := by
  cases op <;> decide

theorem rightAssociative_iff (op : BinaryOp) : op.rightAssociative = true ↔ op = .pow := by
  cases op <;> decide

/-- The level on the right is the operator's own or the one below it. -/
theorem rank_rightPrecedence_bounds (op : BinaryOp) :
    op.rightPrecedence.rank ≤ op.precedence.rank ∧
      op.precedence.rank ≤ op.rightPrecedence.rank + 1 := by
  cases op <;> decide

end BinaryOp

namespace Expr

/-- The level that operators on the left have to stay below. -/
def head : Expr → Nat
  | .binary _ op _ _ => op.precedence.rank
  | _ => Precedence.call.rank

/-- The level that operators on the right must not exceed. -/
def tail : Expr → Nat
  | .binary _ op _ _ => op.rightPrecedence.rank
  | .unary .. => Precedence.unary.rank
  | _ => Precedence.call.rank

/-- The operator of an operation with two operands. -/
def binaryOp? : Expr → Option BinaryOp
  | .binary _ op _ _ => some op
  | _ => none

theorem head_pos (e : Expr) : 0 < e.head := by
  cases e with
  | binary l op r s => exact op.rank_precedence_bounds.1
  | ident | int | float | bool | str | array | hash | unary | cond | loop | func | call | index =>
    exact Nat.succ_pos 13

/-- What is no such operation is out of reach of all operators. -/
theorem head_tail_of_none {e : Expr} (h : e.binaryOp? = none) :
    e.head = Precedence.call.rank ∧ Precedence.unary.rank ≤ e.tail := by
  cases e with
  | binary => cases h
  | ident | int | float | bool | str | array | hash | unary | cond | loop | func | call | index =>
    exact ⟨rfl, Nat.le_of_ble_eq_true rfl⟩

/-- A left operand without parentheses keeps all of its own operands. -/
theorem head_tail_of_left {l : Expr} {op : BinaryOp} (h : needsParens l op false = false) :
    op.precedence.rank ≤ l.head ∧ op.precedence.rank ≤ l.tail := by
  have hop := op.rank_le_twelve
  cases hl : l.binaryOp? with
  | none =>
    obtain ⟨hhead, htail⟩ := head_tail_of_none hl
    simp only [Precedence.rank] at hhead htail
    omega
  | some op' =>
    cases l with
    | binary l' op'' r' s =>
      cases hl
      have hbounds := op'.rank_rightPrecedence_bounds
      have hright := op'.rank_rightPrecedence
      have hpow := op'.rank_eq_twelve_iff
      have hpow' := op.rank_eq_twelve_iff
      have hassoc := op.rightAssociative_iff
      simp only [needsParens, Bool.or_eq_false_iff, decide_eq_false_iff_not, Bool.and_eq_false_iff]
        at h
      show op.precedence.rank ≤ op'.precedence.rank ∧ op.precedence.rank ≤ op'.rightPrecedence.rank
      obtain ⟨hlt, heq | heq⟩ := h
      · omega
      · -- equal levels group to the left, so neither of the two is the power
        have hne : op ≠ .pow := fun hp => by simp [hassoc.mpr hp] at heq
        by_cases hp : op' = .pow
        · rw [if_pos hp] at hright
          have h12 := hpow.mpr hp
          have hne12 : op.precedence.rank ≠ 12 := fun h => hne (hpow'.mp h)
          omega
        · rw [if_neg hp] at hright
          omega
    | ident | int | float | bool | str | array | hash | unary | cond | loop | func | call | index =>
      cases hl

/-- A right operand without parentheses keeps all of its own operands. -/
theorem head_tail_of_right {r : Expr} {op : BinaryOp} (h : needsParens r op true = false) :
    op.rightPrecedence.rank < r.head ∧ op.rightPrecedence.rank ≤ r.tail := by
  have hop := op.rank_le_twelve
  have hbounds := op.rank_rightPrecedence_bounds
  cases hr : r.binaryOp? with
  | none =>
    obtain ⟨hhead, htail⟩ := head_tail_of_none hr
    simp only [Precedence.rank] at hhead htail
    omega
  | some op' =>
    cases r with
    | binary l' op'' r' s =>
      cases hr
      have hbounds' := op'.rank_rightPrecedence_bounds
      have hpow := op'.rank_eq_twelve_iff
      have hpow' := op.rank_eq_twelve_iff
      have hassoc := op.rightAssociative_iff
      have hright := op.rank_rightPrecedence
      simp only [needsParens, Bool.or_eq_false_iff, decide_eq_false_iff_not, Bool.and_eq_false_iff]
        at h
      show op.rightPrecedence.rank < op'.precedence.rank ∧
        op.rightPrecedence.rank ≤ op'.rightPrecedence.rank
      obtain ⟨hlt, heq | heq⟩ := h
      · omega
      · -- equal levels group to the right only for the power
        have hp : op = .pow := hassoc.mp (by simpa using heq)
        rw [if_pos hp] at hright
        have h12 := hpow'.mpr hp
        omega
    | ident | int | float | bool | str | array | hash | unary | cond | loop | func | call | index =>
      cases hr

/-! ### Which operands have none -/

theorem head_binary_le (l : Expr) (op : BinaryOp) (r : Expr) (s : Span) :
    (binary l op r s).head ≤ 12 := op.rank_le_twelve

theorem needsParens_left_iff (l : Expr) (op : BinaryOp) : needsParens l op false = false ↔
    op.precedence.rank ≤ l.head ∧ op.precedence.rank ≤ l.tail := by
  constructor
  · exact head_tail_of_left
  · intro hreach
    cases l with
    | binary l' op' r' s =>
      have hright := op'.rank_rightPrecedence
      have hpow := op.rank_eq_twelve_iff
      have hpow' := op'.rank_eq_twelve_iff
      have hassoc := op.rightAssociative_iff
      obtain ⟨hhead, htail⟩ : op.precedence.rank ≤ op'.precedence.rank ∧
        op.precedence.rank ≤ op'.rightPrecedence.rank := hreach
      simp only [needsParens, Bool.or_eq_false_iff, decide_eq_false_iff_not, Bool.and_eq_false_iff]
      refine ⟨Nat.not_lt_of_le hhead, ?_⟩
      by_cases hp : op = .pow
      · -- the right side of a power is out of reach of no power
        have h12 := hpow.mpr hp
        have hop' := op'.rank_le_twelve
        have hp' := hpow'.mp (by omega)
        rw [if_pos hp'] at hright
        omega
      · have hfalse : op.rightAssociative = false := by rwa [← Bool.not_eq_true, hassoc]
        exact Or.inr (by rw [hfalse]; rfl)
    | ident | int | float | bool | str | array | hash | unary | cond | loop | func | call | index =>
      rfl

theorem needsParens_right_iff (r : Expr) (op : BinaryOp) : needsParens r op true = false ↔
    op.rightPrecedence.rank < r.head := by
  constructor
  · intro h
    exact (head_tail_of_right h).1
  · intro hreach
    cases r with
    | binary l' op' r' s =>
      have hright := op.rank_rightPrecedence
      have hpow := op.rank_eq_twelve_iff
      have hassoc := op.rightAssociative_iff
      have hhead : op.rightPrecedence.rank < op'.precedence.rank := hreach
      simp only [needsParens, Bool.or_eq_false_iff, decide_eq_false_iff_not, Bool.and_eq_false_iff]
      by_cases hp : op = .pow
      · rw [if_pos hp] at hright
        have h12 := hpow.mpr hp
        exact ⟨by omega, Or.inr (by simp [hassoc.mpr hp])⟩
      · rw [if_neg hp] at hright
        exact ⟨by omega, Or.inl (by omega)⟩
    | ident | int | float | bool | str | array | hash | unary | cond | loop | func | call | index =>
      rfl

theorem isBinary_eq_false_iff (e : Expr) :
    isBinary e = false ↔ Precedence.unary.rank < e.head := by
  cases e with
  | binary l op r s =>
    have hop := head_binary_le l op r s
    have hunary : Precedence.unary.rank = 13 := rfl
    simp only [isBinary, Bool.true_eq_false, false_iff]
    omega
  | ident | int | float | bool | str | array | hash | unary | cond | loop | func | call | index =>
    simp [isBinary, head, Precedence.rank]

theorem isOperation_eq_false_iff (e : Expr) :
    isOperation e = false ↔ Precedence.call.rank ≤ e.head ∧ Precedence.call.rank ≤ e.tail := by
  cases e with
  | binary l op r s =>
    have hop := head_binary_le l op r s
    have hcall : Precedence.call.rank = 14 := rfl
    simp only [isOperation, Bool.true_eq_false, false_iff]
    omega
  | unary => simp [isOperation, tail, Precedence.rank]
  | ident | int | float | bool | str | array | hash | cond | loop | func | call | index =>
    simp [isOperation, head, tail, Precedence.rank]

end Expr

end Scriptlet
