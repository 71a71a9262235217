import Mathlib.Algebra.Order.Field.Power
import Mathlib.Algebra.Order.Ring.Rat
import Mathlib.Tactic.FieldSimp
import Mathlib.Tactic.Linarith
import Mathlib.Tactic.NormNum
import Mathlib.Tactic.Positivity
import Mathlib.Tactic.Ring
import Scriptlet.Numeral.Shortest

/-!
# `Proofs.Numeral.Shortest` — shortest digits stand for the float that they are made for

The search for the shortest decimal number looks at grids, each ten times finer than the one before. The
seventeenth is finer than the gaps between floats, so the search ends there at the latest, with a number
of the interval. Intervals of two floats have no number in common: they meet at most in an end, and of
two neighbours one has an odd fraction and leaves its ends out.

## Contents
- `Decimal.number`; `Interval.Contains`: a number lies in the interval.
- `Interval.nearestWhole?_isSome`: a grid that is fine enough has a number of the interval.
- `Interval.shortest_contains`: the digits chosen lie in the interval.
- `Canonical`: the parts of finite floats. `eq_of_contains`: intervals are apart.
-/

namespace Scriptlet.Numeral

/-- The number that a decimal is. -/
def Decimal.number (d : Decimal) : ℚ := d.digits * (10 : ℚ) ^ d.exponent

/-- A power is a quotient of two powers with natural exponents. -/
theorem zpow_mul_pow_toNat_neg {b : ℚ} (hb : b ≠ 0) (k : ℤ) : b ^ k * b ^ (-k).toNat = b ^ k.toNat := by
  rw [← zpow_natCast b (-k).toNat, ← zpow_natCast b k.toNat, ← zpow_add₀ hb]
  congr 1
  omega

/-! ## Counting digits -/

theorem digitCount_pos (n : Nat) : 0 < Interval.digitCount n := Nat.length_toDigits_pos

theorem lt_pow_digitCount (n : Nat) : n < 10 ^ Interval.digitCount n :=
  (Nat.length_toDigits_le_iff (by decide) (digitCount_pos n)).mp (Nat.le_refl _)

theorem pow_digitCount_le {n : Nat} (hn : n ≠ 0) : 10 ^ (Interval.digitCount n - 1) ≤ n := by
  by_contra hlt
  have hn := Nat.pos_of_ne_zero hn
  by_cases hone : Interval.digitCount n - 1 = 0
  · rw [hone, Nat.pow_zero] at hlt
    omega
  · have hle : Interval.digitCount n ≤ Interval.digitCount n - 1 :=
      (Nat.length_toDigits_le_iff (by decide) (Nat.pos_of_ne_zero hone)).mpr (Nat.lt_of_not_le hlt)
    have := digitCount_pos n
    omega

namespace Interval

/-! ## Numbers in intervals -/

/-- The number lies in the interval. -/
structure Contains (i : Interval) (x : ℚ) : Prop where
  low : i.low ≤ x * i.denominator
  high : x * i.denominator ≤ i.high
  between (h : i.closed = false) : i.low < x * i.denominator ∧ x * i.denominator < i.high

section Grids

variable {i : Interval} {k : ℤ} {x : ℚ} {d : Nat} {tie : Tie}

theorem holds_iff : i.holds d = true ↔ i.Contains d := by
  unfold holds
  dsimp only
  constructor
  · intro h
    split at h
    · next hclosed =>
      simp only [Bool.and_eq_true, decide_eq_true_eq] at h
      exact ⟨by exact_mod_cast h.1, by exact_mod_cast h.2, fun hopen => by simp [hclosed] at hopen⟩
    · simp only [Bool.and_eq_true, decide_eq_true_eq] at h
      have hlow : (i.low : ℚ) < d * i.denominator := by exact_mod_cast h.1
      have hhigh : (d : ℚ) * i.denominator < i.high := by exact_mod_cast h.2
      exact ⟨hlow.le, hhigh.le, fun _ => ⟨hlow, hhigh⟩⟩
  · rintro ⟨hlow, hhigh, hbetween⟩
    split
    · simp only [Bool.and_eq_true, decide_eq_true_eq]
      exact ⟨by exact_mod_cast hlow, by exact_mod_cast hhigh⟩
    · next hopen =>
      obtain ⟨hlow, hhigh⟩ := hbetween (by simpa using hopen)
      simp only [Bool.and_eq_true, decide_eq_true_eq]
      exact ⟨by exact_mod_cast hlow, by exact_mod_cast hhigh⟩

/-- In other units the interval has the same numbers. -/
theorem contains_inUnits (h : (i.inUnits k).Contains x) : i.Contains (x * (10 : ℚ) ^ k) := by
  obtain ⟨hlow, hhigh, hbetween⟩ := h
  have hup : (0 : ℚ) < 10 ^ (-k).toNat := by positivity
  have hscale : x * (i.denominator * 10 ^ k.toNat) =
      x * (10 : ℚ) ^ k * i.denominator * 10 ^ (-k).toNat := by
    rw [← zpow_mul_pow_toNat_neg (by norm_num) k]
    ring
  simp only [inUnits, Nat.pow_eq, Nat.cast_mul, Nat.cast_pow, Nat.cast_ofNat, hscale] at hlow hhigh hbetween
  refine ⟨le_of_mul_le_mul_right hlow hup, le_of_mul_le_mul_right hhigh hup, fun hopen => ?_⟩
  obtain ⟨hlow, hhigh⟩ := hbetween hopen
  exact ⟨lt_of_mul_lt_mul_right hlow hup.le, lt_of_mul_lt_mul_right hhigh hup.le⟩

theorem holds_of_nearestWhole? (h : i.nearestWhole? tie = some d) : i.holds d = true := by
  unfold nearestWhole? at h
  dsimp only at h
  split at h
  · cases h
  · next hbelow _ =>
    cases h
    exact hbelow
  · next _ habove =>
    cases h
    exact habove
  · next hbelow habove =>
    split at h
    · cases h
      exact hbelow
    · cases h
      exact habove
    · split at h
      · cases h
        exact habove
      · split at h
        · cases h
          exact hbelow
        · cases h
          exact habove

/-- One of the whole numbers next to the value lies in an interval that is longer than one. -/
theorem nearestWhole?_isSome (hden : 0 < i.denominator) (hlow : i.low < i.value)
    (hhigh : i.value < i.high) (hlong : i.low + i.denominator < i.high) :
    ∃ d, i.nearestWhole? tie = some d := by
  have hbelow : i.value / i.denominator * i.denominator ≤ i.value := Nat.div_mul_le_self _ _
  have habove : i.value < (i.value / i.denominator + 1) * i.denominator := by
    rw [Nat.mul_comm]
    exact Nat.lt_mul_div_succ _ hden
  have hnext : (i.value / i.denominator + 1) * i.denominator =
      i.value / i.denominator * i.denominator + i.denominator := Nat.succ_mul _ _
  have hone : ¬ (i.holds (i.value / i.denominator) = false ∧
      i.holds (i.value / i.denominator + 1) = false) := by
    unfold holds
    dsimp only
    rintro ⟨hb, ha⟩
    split at hb
    · next hclosed =>
      rw [if_pos hclosed] at ha
      simp only [Bool.and_eq_false_iff, decide_eq_false_iff_not] at hb ha
      omega
    · next hopen =>
      rw [if_neg hopen] at ha
      simp only [Bool.and_eq_false_iff, decide_eq_false_iff_not] at hb ha
      omega
  unfold nearestWhole?
  dsimp only
  split
  · next hb ha => exact absurd ⟨hb, ha⟩ hone
  · exact ⟨_, rfl⟩
  · exact ⟨_, rfl⟩
  · split
    · exact ⟨_, rfl⟩
    · exact ⟨_, rfl⟩
    · split
      · exact ⟨_, rfl⟩
      · exact ⟨_, rfl⟩

/-- The power of ten below the place is not larger than the value. -/
theorem pow_place_le (hvalue : 0 < i.value) (hden : 0 < i.denominator) :
    (10 : ℚ) ^ (i.place - 1) * i.denominator ≤ i.value := by
  unfold place
  split
  · next hle =>
    have hpos : i.value / i.denominator ≠ 0 := (Nat.div_pos hle hden).ne'
    have hcount := digitCount_pos (i.value / i.denominator)
    have hexponent : (digitCount (i.value / i.denominator) : ℤ) - 1 =
        ((digitCount (i.value / i.denominator) - 1 : Nat) : ℤ) := by omega
    have hpow : 10 ^ (digitCount (i.value / i.denominator) - 1) * i.denominator ≤ i.value :=
      (Nat.mul_le_mul_right _ (pow_digitCount_le hpos)).trans (Nat.div_mul_le_self _ _)
    rw [hexponent, zpow_natCast]
    exact_mod_cast hpow
  · next hlt =>
    -- the value is below one, and as many places behind the point as its inverse has digits
    have hpow : i.denominator ≤ i.value * 10 ^ digitCount ((i.denominator - 1) / i.value) := by
      have hsucc := lt_pow_digitCount ((i.denominator - 1) / i.value)
      have hquot : i.denominator - 1 < i.value * ((i.denominator - 1) / i.value + 1) :=
        Nat.lt_mul_div_succ _ hvalue
      have hmul := Nat.mul_le_mul_left i.value (Nat.succ_le_of_lt hsucc)
      rw [Nat.succ_eq_add_one] at hmul
      omega
    have hexponent : (1 : ℤ) - digitCount ((i.denominator - 1) / i.value) - 1 =
        -(digitCount ((i.denominator - 1) / i.value) : ℤ) := by omega
    rw [hexponent, zpow_neg, zpow_natCast, inv_mul_le_iff₀ (by positivity), mul_comm]
    exact_mod_cast hpow

end Grids

/-! ## The shortest digits -/

theorem number_stripZeros (fuel : Nat) (d : Decimal) : (stripZeros fuel d).number = d.number := by
  induction fuel generalizing d with
  | zero => rfl
  | succ fuel ih =>
    unfold stripZeros
    split
    · next h =>
      obtain ⟨c, hc⟩ : ∃ c, d.digits = 10 * c := by
        simp only [ne_eq, Bool.and_eq_true, decide_eq_true_eq] at h
        exact ⟨d.digits / 10, by omega⟩
      rw [ih]
      unfold Decimal.number
      rw [hc, Nat.mul_div_cancel_left c (by decide), zpow_add_one₀ (by norm_num)]
      push_cast
      ring
    · rfl

section Shortest

variable {i : Interval} {tie : Tie}

/-- What is found on a grid lies in the interval, and so do the digits chosen if something is found. -/
theorem shortest_contains_of_hit {n d : Nat} (hn : n < 17)
    (hhit : (i.inUnits (i.place - (n + 1))).nearestWhole? tie = some d) :
    i.Contains (i.shortest tie).number := by
  have hsome : ∃ hit, ((List.range 17).findSome? fun (n : Nat) =>
      ((i.inUnits (i.place - (n + 1))).nearestWhole? tie).map fun d =>
        (⟨d, i.place - (n + 1)⟩ : Decimal)) = some hit := by
    rw [← Option.isSome_iff_exists, List.findSome?_isSome_iff]
    exact ⟨n, List.mem_range.mpr hn, by rw [hhit]; rfl⟩
  obtain ⟨hit, hfound⟩ := hsome
  obtain ⟨m, -, hm⟩ := List.exists_of_findSome?_eq_some hfound
  obtain ⟨c, hc, rfl⟩ := Option.map_eq_some_iff.mp hm
  unfold shortest
  dsimp only
  rw [hfound, Option.getD_some, number_stripZeros]
  exact contains_inUnits (holds_iff.mp (holds_of_nearestWhole? hc))

end Shortest

/-! ## The intervals of floats -/

section Binary

variable {m : Nat} {q : ℤ} {narrow : Bool} {tie : Tie}

/-- The seventeenth grid is finer than the distance of two floats, and finer than three quarters of it
    where the distance changes. -/
theorem fine_enough (hm : m < 2 ^ 53) (hnarrow : narrow = true → m ≤ 2 ^ 52) {k : ℤ}
    (hk : (10 : ℚ) ^ k * 10 ^ 16 ≤ m * 2 ^ q) :
    4 * (10 : ℚ) ^ k < ((if narrow then 1 else 2) + 2) * 2 ^ q := by
  have hq : (0 : ℚ) < 2 ^ q := by positivity
  cases narrow with
  | false =>
    have hcast : (m : ℚ) ≤ 2 ^ 53 := by exact_mod_cast hm.le
    have hle := mul_le_mul_of_nonneg_right hcast hq.le
    norm_num at hk hle ⊢
    linarith
  | true =>
    have hcast : (m : ℚ) ≤ 2 ^ 52 := by exact_mod_cast hnarrow rfl
    have hle := mul_le_mul_of_nonneg_right hcast hq.le
    norm_num at hk hle ⊢
    linarith

theorem ofBinary_denominator_pos : 0 < (ofBinary m q narrow).denominator :=
  Nat.mul_pos (by decide) (Nat.pow_pos (by decide))

theorem ofBinary_value_pos (hpos : 0 < m) : 0 < (ofBinary m q narrow).value :=
  Nat.mul_pos (by omega) (Nat.pow_pos (by decide))

/-- The denominator of a float's interval goes with the fourth part of the distance of two floats. -/
theorem ofBinary_scale (m : Nat) (q : ℤ) (narrow : Bool) :
    (2 : ℚ) ^ q * (ofBinary m q narrow).denominator = 4 * 2 ^ q.toNat := by
  have hden : ((ofBinary m q narrow).denominator : ℚ) = 4 * 2 ^ (-q).toNat := by
    simp [ofBinary]
  rw [hden, ← zpow_mul_pow_toNat_neg (by norm_num) q]
  ring

/-- On a grid that is fine enough the interval is longer than one. -/
theorem inUnits_long (hpos : 0 < m) {k : ℤ}
    (hk : 4 * (10 : ℚ) ^ k < ((if narrow then 1 else 2) + 2) * 2 ^ q) :
    ((ofBinary m q narrow).inUnits k).low + ((ofBinary m q narrow).inUnits k).denominator <
      ((ofBinary m q narrow).inUnits k).high := by
  have hden : (0 : ℚ) < (ofBinary m q narrow).denominator := by
    exact_mod_cast ofBinary_denominator_pos
  have hup : (0 : ℚ) < 10 ^ (-k).toNat := by positivity
  have hlength : (ofBinary m q narrow).low + ((if narrow then 1 else 2) + 2) * 2 ^ q.toNat =
      (ofBinary m q narrow).high := by
    unfold ofBinary
    rw [Nat.pow_eq, ← Nat.add_mul]
    congr 1
    split <;> omega
  have hunit : (ofBinary m q narrow).denominator * 10 ^ k.toNat <
      ((if narrow then 1 else 2) + 2) * 2 ^ q.toNat * 10 ^ (-k).toNat := by
    have hscale := ofBinary_scale m q narrow
    have hmul := mul_lt_mul_of_pos_right hk hden
    rw [mul_assoc _ ((2 : ℚ) ^ q), hscale] at hmul
    have hlt : ((ofBinary m q narrow).denominator : ℚ) * 10 ^ k <
        ((if narrow then 1 else 2) + 2) * 2 ^ q.toNat := by linarith
    have hlt := mul_lt_mul_of_pos_right hlt hup
    rw [mul_assoc, zpow_mul_pow_toNat_neg (by norm_num)] at hlt
    exact_mod_cast hlt
  unfold inUnits
  dsimp only
  rw [← hlength, Nat.pow_eq, Nat.pow_eq, Nat.add_mul]
  exact Nat.add_lt_add_left hunit _

/-- The shortest digits of a float lie in its interval. -/
theorem shortest_contains (hpos : 0 < m) (hm : m < 2 ^ 53) (hnarrow : narrow = true → m ≤ 2 ^ 52) :
    (ofBinary m q narrow).Contains ((ofBinary m q narrow).shortest tie).number := by
  have hden : (0 : ℚ) < (ofBinary m q narrow).denominator := by
    exact_mod_cast ofBinary_denominator_pos
  have hscale := ofBinary_scale m q narrow
  generalize hk : (ofBinary m q narrow).place - 17 = k
  -- the grid is fine enough, by the place of the value
  have hfine : 4 * (10 : ℚ) ^ k < ((if narrow then 1 else 2) + 2) * 2 ^ q := by
    refine fine_enough hm hnarrow (le_of_mul_le_mul_right ?_ hden)
    have hvalue : (((ofBinary m q narrow).value : Nat) : ℚ) = 4 * m * 2 ^ q.toNat := by
      simp [ofBinary]
    have hplace := pow_place_le (i := ofBinary m q narrow) (ofBinary_value_pos hpos)
      ofBinary_denominator_pos
    have hpower : (10 : ℚ) ^ ((ofBinary m q narrow).place - 1) = 10 ^ k * 10 ^ 16 := by
      rw [← hk, ← zpow_natCast, ← zpow_add₀ (by norm_num)]
      congr 1
      push_cast
      ring
    rw [hpower, hvalue] at hplace
    rw [mul_assoc (m : ℚ), hscale]
    linarith
  -- so one of its numbers lies in the interval
  have hup : 0 < 10 ^ (-k).toNat := by positivity
  have hS : 0 < Nat.pow 2 q.toNat := Nat.pow_pos (by decide)
  have hhit : ∃ d, ((ofBinary m q narrow).inUnits k).nearestWhole? tie = some d := by
    refine nearestWhole?_isSome ?_ ?_ ?_ (inUnits_long hpos hfine)
    · exact Nat.mul_pos ofBinary_denominator_pos (Nat.pow_pos (by decide))
    · refine Nat.mul_lt_mul_of_pos_right (Nat.mul_lt_mul_of_pos_right ?_ hS) hup
      split <;> omega
    · refine Nat.mul_lt_mul_of_pos_right (Nat.mul_lt_mul_of_pos_right ?_ hS) hup
      omega
  obtain ⟨d, hd⟩ := hhit
  refine shortest_contains_of_hit (n := 16) (by decide) (d := d) ?_
  rw [← hd, ← hk]
  rfl

end Binary

end Interval

/-! ## Floats apart from each other -/

/-- The fraction and the exponent of a finite float: fifty-three bits, of which the first is one unless
    the exponent is the least. -/
structure Canonical (m : Nat) (q : ℤ) : Prop where
  lt : m < 2 ^ 53
  le : -1074 ≤ q
  normal : 2 ^ 52 ≤ m ∨ q = -1074

/-- Whether the floats below lie closer than those above. -/
def isNarrow (m : Nat) (q : ℤ) : Bool := m = 2 ^ 52 && decide (-1074 < q)

section Apart

variable {m m' : Nat} {q q' : ℤ} {x : ℚ}

/-- The ends of a float's interval, times four. -/
theorem bounds_of_contains {narrow : Bool} (h : (Interval.ofBinary m q narrow).Contains x) :
    ((4 * m - (if narrow then 1 else 2) : Nat) : ℚ) * 2 ^ q ≤ 4 * x ∧
      4 * x ≤ (4 * m + 2) * 2 ^ q ∧
      (m % 2 = 1 → ((4 * m - (if narrow then 1 else 2) : Nat) : ℚ) * 2 ^ q < 4 * x ∧
        4 * x < (4 * m + 2) * 2 ^ q) := by
  obtain ⟨hlow, hhigh, hbetween⟩ := h
  have hscale := Interval.ofBinary_scale m q narrow
  have hS : (0 : ℚ) < 2 ^ q.toNat := by positivity
  have hq : (0 : ℚ) < 2 ^ q := by positivity
  have hlowCast : ((Interval.ofBinary m q narrow).low : ℚ) =
      ((4 * m - (if narrow then 1 else 2) : Nat) : ℚ) * 2 ^ q.toNat := by simp [Interval.ofBinary]
  have hhighCast : ((Interval.ofBinary m q narrow).high : ℚ) = (4 * m + 2) * 2 ^ q.toNat := by
    simp [Interval.ofBinary]
  have hx : x * (Interval.ofBinary m q narrow).denominator * 2 ^ q = 4 * x * 2 ^ q.toNat := by
    rw [mul_assoc, mul_comm _ ((2 : ℚ) ^ q), hscale]
    ring
  rw [hlowCast] at hlow hbetween
  rw [hhighCast] at hhigh hbetween
  refine ⟨le_of_mul_le_mul_right ?_ hS, le_of_mul_le_mul_right ?_ hS, fun hodd => ?_⟩
  · have hmul := mul_le_mul_of_nonneg_right hlow hq.le
    rw [hx] at hmul
    linarith
  · have hmul := mul_le_mul_of_nonneg_right hhigh hq.le
    rw [hx] at hmul
    linarith
  · have hopen : (Interval.ofBinary m q narrow).closed = false := by simp [Interval.ofBinary, hodd]
    obtain ⟨hlow, hhigh⟩ := hbetween hopen
    have hlow := mul_lt_mul_of_pos_right hlow hq
    have hhigh := mul_lt_mul_of_pos_right hhigh hq
    rw [hx] at hlow hhigh
    exact ⟨lt_of_mul_lt_mul_right (by linarith) hS.le, lt_of_mul_lt_mul_right (by linarith) hS.le⟩

/-- Between floats with the same exponent. -/
theorem not_contains_of_fraction_lt (h : Canonical m q) (hm : m < m')
    (hx : (Interval.ofBinary m q (isNarrow m q)).Contains x)
    (hx' : (Interval.ofBinary m' q (isNarrow m' q)).Contains x) : False := by
  -- the float above has others with its exponent below it
  have hwide : isNarrow m' q = false := by
    unfold isNarrow
    rw [Bool.and_eq_false_iff, decide_eq_false_iff_not, decide_eq_false_iff_not]
    have := h.normal
    omega
  obtain ⟨-, hhigh, hodd⟩ := bounds_of_contains hx
  obtain ⟨hlow, -, hodd'⟩ := bounds_of_contains hx'
  rw [hwide, if_neg Bool.false_ne_true] at hlow hodd'
  have hq : (0 : ℚ) < 2 ^ q := by positivity
  have hle : ((4 * m + 2 : Nat) : ℚ) * 2 ^ q ≤ ((4 * m' - 2 : Nat) : ℚ) * 2 ^ q :=
    mul_le_mul_of_nonneg_right (by exact_mod_cast (by omega : 4 * m + 2 ≤ 4 * m' - 2)) hq.le
  push_cast at hle
  by_cases hm' : m' = m + 1
  · rcases Nat.mod_two_eq_zero_or_one m with heven | hone
    · have hstrict := (hodd' (by omega)).1
      linarith
    · have hstrict := (hodd hone).2
      linarith
  · have hlt : ((4 * m + 2 : Nat) : ℚ) * 2 ^ q < ((4 * m' - 2 : Nat) : ℚ) * 2 ^ q :=
      mul_lt_mul_of_pos_right (by exact_mod_cast (by omega : 4 * m + 2 < 4 * m' - 2)) hq
    push_cast at hlt
    linarith

/-- Between floats with different exponents. -/
theorem not_contains_of_exponent_lt (h : Canonical m q) (h' : Canonical m' q') (hq : q < q')
    (hx : (Interval.ofBinary m q (isNarrow m q)).Contains x)
    (hx' : (Interval.ofBinary m' q' (isNarrow m' q')).Contains x) : False := by
  obtain ⟨-, hhigh, hodd⟩ := bounds_of_contains hx
  obtain ⟨hlow, -, -⟩ := bounds_of_contains hx'
  have hpos : (0 : ℚ) < 2 ^ q := by positivity
  have hdouble : 2 * (2 : ℚ) ^ q ≤ 2 ^ q' := by
    have hnext : (2 : ℚ) ^ (q + 1) ≤ 2 ^ q' := zpow_le_zpow_right₀ (by norm_num) (by omega)
    rw [zpow_add_one₀ (by norm_num)] at hnext
    linarith
  have hleast : 2 ^ 54 - 1 ≤ 4 * m' - (if isNarrow m' q' then 1 else 2) := by
    have hleast : -1074 < q' := Int.lt_of_le_of_lt h.le hq
    have hlarge : 2 ^ 52 ≤ m' := h'.normal.resolve_right (by omega)
    unfold isNarrow
    by_cases hm' : m' = 2 ^ 52
    · rw [decide_eq_true hm', decide_eq_true hleast, Bool.and_self, if_pos rfl]
      omega
    · rw [decide_eq_false hm', Bool.false_and, if_neg Bool.false_ne_true]
      omega
  have hend : (2 ^ 54 - 1 : ℚ) * (2 * 2 ^ q) ≤ 4 * x := by
    have hcast : ((2 ^ 54 - 1 : Nat) : ℚ) ≤
        ((4 * m' - (if isNarrow m' q' then 1 else 2) : Nat) : ℚ) := by exact_mod_cast hleast
    have hmul := mul_le_mul hcast hdouble (by positivity) (by positivity)
    norm_num at hmul hlow ⊢
    linarith
  rcases Nat.mod_two_eq_zero_or_one m with heven | hone
  · have hm : ((m : Nat) : ℚ) ≤ 2 ^ 53 - 2 := by
      have := h.lt
      have hle : m + 2 ≤ 2 ^ 53 := by omega
      have hcast : ((m + 2 : Nat) : ℚ) ≤ ((2 ^ 53 : Nat) : ℚ) := by exact_mod_cast hle
      push_cast at hcast
      linarith
    have hmul := mul_le_mul_of_nonneg_right hm hpos.le
    linarith
  · have hstrict := (hodd hone).2
    have hm : ((m : Nat) : ℚ) ≤ 2 ^ 53 - 1 := by
      have hcast : ((m + 1 : Nat) : ℚ) ≤ ((2 ^ 53 : Nat) : ℚ) := by exact_mod_cast h.lt
      push_cast at hcast
      linarith
    have hmul := mul_le_mul_of_nonneg_right hm hpos.le
    linarith

/-- No number lies in the intervals of two floats. -/
theorem eq_of_contains (h : Canonical m q) (h' : Canonical m' q')
    (hx : (Interval.ofBinary m q (isNarrow m q)).Contains x)
    (hx' : (Interval.ofBinary m' q' (isNarrow m' q')).Contains x) : m = m' ∧ q = q' := by
  rcases lt_trichotomy q q' with hq | rfl | hq
  · exact (not_contains_of_exponent_lt h h' hq hx hx').elim
  · rcases lt_trichotomy m m' with hm | rfl | hm
    · exact (not_contains_of_fraction_lt h hm hx hx').elim
    · exact ⟨rfl, rfl⟩
    · exact (not_contains_of_fraction_lt h' hm hx' hx).elim
  · exact (not_contains_of_exponent_lt h' h hq hx' hx).elim

end Apart

end Scriptlet.Numeral
