import Mathlib.Tactic.Ring
import Scriptlet.Eval.Arithmetic

/-!
# `Proofs.Eval.Exact` — operators on 64 bits and arithmetic without bounds

Every arithmetic operator on two integers gives what the same operation gives on integers without
bounds, reduced to 64 bits in two's complement. Sums, products and powers may be reduced at every step,
since reduction goes along with them. A quotient is out of range in one case only, that of the least
integer by minus one; a remainder and a shift to the right never are.

## Contents
- `reduced`: the outcome of an operator whose exact result is given.
- `div_eq_ofInt`, `rem_eq_ofInt`, `floorDiv_eq_ofInt`: the three divisions.
- `power_ofInt`: repeated squaring.
- `shiftLeft_eq_ofInt`, `shiftRight_eq_ofInt`: shifts as multiplication and division.
- `applyBinary_exact`: all of them, with the operands for which they fail.
-/

namespace Scriptlet.Eval

/-! ## Divisions -/

section Division

/-- The quotient rounded down is one less than the quotient cut off where something remains that has
    another sign than the divisor. -/
theorem fdiv_eq_ite {x y : Int} (hy : y ≠ 0) :
    x.fdiv y = if x.tmod y ≠ 0 ∧ (x.tmod y < 0 ↔ 0 ≤ y) then x.tdiv y - 1 else x.tdiv y := by
  rw [Int.fdiv_eq_tdiv]
  by_cases hdvd : y ∣ x
  · have hzero : x.tmod y = 0 := Int.tmod_eq_zero_of_dvd hdvd
    simp [hdvd, hzero]
  · have hne : x.tmod y ≠ 0 := fun h => hdvd (Int.dvd_of_tmod_eq_zero h)
    rw [if_neg hdvd]
    -- a remainder has the sign of the dividend
    by_cases hx : 0 ≤ x
    · have hpos : 0 ≤ x.tmod y := Int.tmod_nonneg y hx
      rw [if_pos hx]
      split <;> split <;> omega
    · have hneg : 0 ≤ (-x).tmod y := Int.tmod_nonneg y (by omega)
      rw [Int.neg_tmod] at hneg
      rw [if_neg hx]
      rcases Int.lt_or_gt_of_ne hy with hy | hy
      · rw [if_neg (by omega), if_neg (by omega), Int.sign_eq_neg_one_of_neg hy]
        omega
      · rw [if_pos (by omega), if_pos (by omega), Int.sign_eq_one_of_pos hy]

variable (a b : Int64)

theorem div_eq_ofInt : a / b = Int64.ofInt (a.toInt.tdiv b.toInt) := by
  apply Int64.toInt_inj.mp
  rw [Int64.toInt_div, Int64.toInt_ofInt]

theorem rem_eq_ofInt : a % b = Int64.ofInt (a.toInt - b.toInt * a.toInt.tdiv b.toInt) := by
  rw [← Int.tmod_def, ← Int64.toInt_mod, Int64.ofInt_toInt]

variable {b}

theorem floorDiv_eq_ofInt (hb : b.toInt ≠ 0) :
    floorDiv a b = Int64.ofInt (a.toInt.fdiv b.toInt) := by
  have htest : (a % b ≠ 0 && decide (a % b < 0) != decide (b < 0)) = true ↔
      a.toInt.tmod b.toInt ≠ 0 ∧ (a.toInt.tmod b.toInt < 0 ↔ 0 ≤ b.toInt) := by
    rw [← Int64.toInt_mod]
    simp [Int64.lt_iff_toInt_lt, ← Int64.toInt_inj]
    intro
    omega
  unfold floorDiv
  rw [fdiv_eq_ite hb]
  simp only [htest]
  split
  · rw [Int64.ofInt_sub, ← div_eq_ofInt]
    rfl
  · exact div_eq_ofInt a b

end Division

/-! ## Powers -/

/-- Squares and products are reduced on the way, and nothing is lost by it. -/
theorem power_ofInt (x : Int) (n : Nat) : power (Int64.ofInt x) n = Int64.ofInt (x ^ n) := by
  -- each round squares the base and halves the exponent
  induction n using Nat.strongRecOn generalizing x with
  | ind n ih =>
    unfold power
    split
    · next h =>
      rw [h, pow_zero]
      rfl
    · next h =>
      have hhalf : n / 2 < n := Nat.div_lt_self (Nat.pos_of_ne_zero h) (by decide)
      have hsquares : (x * x) ^ (n / 2) = x ^ (2 * (n / 2)) := by rw [pow_mul, pow_two]
      rw [← Int64.ofInt_mul, ih _ hhalf, ← Int64.ofInt_mul, hsquares]
      split
      · rw [← pow_succ']
        congr 2
        omega
      · congr 2
        omega

/-! ## Shifts -/

section Shift

variable (a : Int64) {b : Int64} (h0 : 0 ≤ b.toInt) (h64 : b.toInt < 64)

include h0

theorem toNat_toBitVec : b.toBitVec.toNat = b.toInt.toNat := by
  have hmsb : b.toBitVec.toInt = b.toBitVec.toNat :=
    BitVec.toInt_eq_toNat_of_lt (BitVec.toInt_pos_iff.mp h0)
  show _ = b.toBitVec.toInt.toNat
  rw [hmsb, Int.toNat_natCast]

include h64

/-- An amount below the width is the amount by which is shifted. -/
theorem smod_width : b.toBitVec.smod 64 = b.toBitVec := by
  apply BitVec.eq_of_toInt_eq
  rw [BitVec.toInt_smod]
  exact Int.fmod_eq_of_lt h0 h64

theorem shiftLeft_eq_ofInt : a <<< b = Int64.ofInt (a.toInt * 2 ^ b.toInt.toNat) := by
  have htwo : BitVec.twoPow 64 b.toInt.toNat = BitVec.ofInt 64 (2 ^ b.toInt.toNat) := by
    apply BitVec.eq_of_toNat_eq
    have hcast : (2 : Int) ^ b.toInt.toNat = (2 ^ b.toInt.toNat : Nat) := (Int.natCast_pow 2 _).symm
    rw [BitVec.toNat_twoPow, hcast, BitVec.ofInt_natCast, BitVec.toNat_ofNat]
  apply Int64.toBitVec_inj.mp
  rw [Int64.toBitVec_shiftLeft, smod_width h0 h64, BitVec.shiftLeft_eq', toNat_toBitVec h0,
    BitVec.shiftLeft_eq_mul_twoPow, htwo, Int64.toBitVec_ofInt, BitVec.ofInt_mul]
  congr 1
  exact (BitVec.ofInt_toInt).symm

theorem shiftRight_eq_ofInt : a >>> b = Int64.ofInt (a.toInt.fdiv (2 ^ b.toInt.toNat)) := by
  have hshift : (a >>> b).toInt = a.toInt.fdiv (2 ^ b.toInt.toNat) := by
    show (a >>> b).toBitVec.toInt = _
    rw [Int64.toBitVec_shiftRight, smod_width h0 h64, BitVec.sshiftRight',
      BitVec.toInt_sshiftRight, toNat_toBitVec h0, Int.shiftRight_eq_div_pow,
      Int.fdiv_eq_ediv_of_nonneg _ (Int.pow_nonneg (by decide)), Int.natCast_pow]
    rfl
  rw [← hshift, Int64.ofInt_toInt]

end Shift

/-! ## Operators -/

/-- The outcome of an operator on 64 bits whose result on integers without bounds is `exact`. -/
def reduced (exact : Int) : Except RuntimeError Value := .ok (.int (Int64.ofInt exact))

/-- Arithmetic on two integers of 64 bits is arithmetic on integers without bounds, reduced to 64 bits
    in two's complement. The divisions fail exactly for a divisor of zero, powers for a negative
    exponent, and shifts for an amount that is negative or not below the width. -/
theorem applyBinary_exact (a b : Int64) :
    applyBinary .add (.int a) (.int b) = reduced (a.toInt + b.toInt) ∧
    applyBinary .sub (.int a) (.int b) = reduced (a.toInt - b.toInt) ∧
    applyBinary .mul (.int a) (.int b) = reduced (a.toInt * b.toInt) ∧
    applyBinary .div (.int a) (.int b) =
      (if b.toInt = 0 then .error (.divisionByZero .div)
      else reduced (a.toInt.tdiv b.toInt)) ∧
    applyBinary .floorDiv (.int a) (.int b) =
      (if b.toInt = 0 then .error (.divisionByZero .floorDiv)
      else reduced (a.toInt.fdiv b.toInt)) ∧
    applyBinary .rem (.int a) (.int b) =
      (if b.toInt = 0 then .error (.divisionByZero .rem)
      else reduced (a.toInt - b.toInt * a.toInt.tdiv b.toInt)) ∧
    applyBinary .pow (.int a) (.int b) =
      (if b.toInt < 0 then .error (.negativeExponent b)
      else reduced (a.toInt ^ b.toInt.toNat)) ∧
    applyBinary .shiftLeft (.int a) (.int b) =
      (if 0 ≤ b.toInt ∧ b.toInt < 64 then reduced (a.toInt * 2 ^ b.toInt.toNat)
      else .error (.shiftOutOfRange b)) ∧
    applyBinary .shiftRight (.int a) (.int b) =
      (if 0 ≤ b.toInt ∧ b.toInt < 64 then reduced (a.toInt.fdiv (2 ^ b.toInt.toNat))
      else .error (.shiftOutOfRange b)) := by
  have hzero : b = 0 ↔ b.toInt = 0 := Int64.toInt_inj.symm
  have hneg : b < 0 ↔ b.toInt < 0 := Int64.lt_iff_toInt_lt
  have hwidth : (0 ≤ b && b < 64) = true ↔ 0 ≤ b.toInt ∧ b.toInt < 64 := by
    rw [Bool.and_eq_true, decide_eq_true_iff, decide_eq_true_iff, Int64.le_iff_toInt_le,
      Int64.lt_iff_toInt_lt]
    rfl
  unfold applyBinary integerOp reduced
  simp only [hzero, hneg, hwidth]
  refine ⟨?add, ?sub, ?mul, ?div, ?floorDiv, ?rem, ?pow, ?shiftLeft, ?shiftRight⟩
  case add => rw [Int64.ofInt_add, Int64.ofInt_toInt, Int64.ofInt_toInt]
  case sub => rw [Int64.ofInt_sub, Int64.ofInt_toInt, Int64.ofInt_toInt]
  case mul => rw [Int64.ofInt_mul, Int64.ofInt_toInt, Int64.ofInt_toInt]
  case div => rw [div_eq_ofInt]
  case floorDiv =>
    split
    · rfl
    · next hb => rw [floorDiv_eq_ofInt a hb]
  case rem => rw [rem_eq_ofInt]
  case pow => rw [← power_ofInt, Int64.ofInt_toInt]
  case shiftLeft =>
    split
    · next h => rw [shiftLeft_eq_ofInt a h.1 h.2]
    · rfl
  case shiftRight =>
    split
    · next h => rw [shiftRight_eq_ofInt a h.1 h.2]
    · rfl

end Scriptlet.Eval
