import Scriptlet.Numeral.Decimal
import Scriptlet.Proofs.Numeral.Literal
import Scriptlet.Proofs.Numeral.Shortest

/-!
# `Proofs.Numeral.Printed` — a finite float is known by its text

Whatever the style, the text of a float spells the number that its digits stand for: where the point
goes, which zeros are filled in and whether there is an exponent makes no difference to the number. This
number lies in the interval of one float alone.

## Contents
- `Spelling.number`, `numberOf?`: the number that a text spells.
- `numberOf?_layout`: digits laid out in a style spell their decimal.
- `ofFloat_eq_finite`: the parts of a finite float, and its bits from them.
- `eq_of_finiteText?`: different finite floats have different texts.
-/

namespace Scriptlet.Numeral

/-! ## Numbers that texts spell -/

/-- The number that a decimal spelling stands for. -/
def Spelling.number (s : Spelling) : ℚ :=
  ((digitsValue? 10 s.digits).getD 0 : Nat) * (10 : ℚ) ^ (s.exponent - s.places)

/-- The number that an unsigned text spells. -/
def numberOf? (cs : List Char) : Option ℚ := (Spelling.ofChars? cs).map Spelling.number

section Reading

variable {cs whole fraction tail : List Char} {n k : Nat} {e : ℤ}

theorem Digits.all_isDigit (h : Digits 10 cs n) : ∀ c ∈ cs, c.isDigit = true := by
  intro c hc
  obtain ⟨d, hd, hplace⟩ := h.isDigit hc
  interval_cases d <;> rcases hplace with hplace | hplace <;> cases hplace <;> rfl

theorem isDigit_zero : IsDigit 10 '0' 0 := isDigit_digitChar (by decide)

theorem Digits.append_zeros (h : Digits 10 cs n) (k : Nat) :
    Digits 10 (cs ++ List.replicate k '0') (n * 10 ^ k) := by
  induction k with
  | zero => simpa using h
  | succ k ih =>
    have hmore := ih.concat isDigit_zero
    rw [List.append_assoc, ← List.replicate_succ', Nat.add_zero, Nat.mul_comm, Nat.mul_assoc] at hmore
    exact hmore

theorem Digits.zeros_append (h : Digits 10 cs n) (k : Nat) :
    Digits 10 (List.replicate k '0' ++ cs) n := by
  induction k with
  | zero => exact h
  | succ k ih =>
    obtain ⟨ds, -, hds, hn⟩ := ih
    refine ⟨0 :: ds, List.cons_ne_nil 0 ds, .cons isDigit_zero hds, ?_⟩
    rw [hn, List.reverse_cons, Nat.ofDigits_append]
    simp

/-- A text with a point in it. -/
theorem ofChars?_point (whole fraction tail : List Char) (hwhole : ∀ c ∈ whole, c.isDigit = true)
    (hfraction : ∀ c ∈ fraction, c.isDigit = true) (hsome : whole ++ fraction ≠ [])
    (htail : ∀ c ∈ tail.head?, c.isDigit = false) (he : readExponentPart? tail = some e) :
    Spelling.ofChars? (whole ++ '.' :: (fraction ++ tail)) =
      some ⟨whole ++ fraction, fraction.length, e⟩ := by
  have hbefore := span_append hwhole (r := '.' :: (fraction ++ tail)) (by simp)
  have hafter := span_append hfraction (r := tail) htail
  have hne : (whole.isEmpty && fraction.isEmpty) = false := by
    simpa [List.isEmpty_iff] using hsome
  unfold Spelling.ofChars?
  rw [hbefore.1, hbefore.2]
  simp only [hafter.1, hafter.2, hne, he]
  rfl

/-- A text with no point in it. -/
theorem ofChars?_whole (whole tail : List Char) (hwhole : ∀ c ∈ whole, c.isDigit = true)
    (hsome : whole ≠ [])
    (htail : ∀ c ∈ tail.head?, c.isDigit = false ∧ c ≠ '.') (he : readExponentPart? tail = some e) :
    Spelling.ofChars? (whole ++ tail) = some ⟨whole, 0, e⟩ := by
  have hbefore := span_append hwhole (r := tail) fun c hc => (htail c hc).1
  have hne : (whole.isEmpty && true) = false := by simpa [List.isEmpty_iff] using hsome
  unfold Spelling.ofChars?
  rw [hbefore.1, hbefore.2]
  dsimp only
  split
  · exact absurd rfl (htail '.' rfl).2
  · simp only [List.isEmpty_nil, hne, he, List.append_nil]
    rfl

/-- The exponent that a format writes. -/
theorem readExponentPart?_written (e : ℤ) :
    readExponentPart? ('e' :: (if e < 0 then '-' else '+') :: Nat.toDigits 10 e.natAbs) =
      some e := by
  have hdigits := digitsValue?_eq_some_iff.mpr (digits_toDigits e.natAbs)
  simp only [readExponentPart?, decide_true, Bool.true_or, if_true]
  unfold readExponent?
  by_cases hneg : e < 0
  · have hvalue : -(e.natAbs : ℤ) = e := by omega
    simp only [if_pos hneg, splitSign, hdigits]
    exact congrArg some hvalue
  · have hvalue : (e.natAbs : ℤ) = e := by omega
    simp only [if_neg hneg, splitSign, hdigits]
    exact congrArg some hvalue

theorem number_of_digits {places : Nat} (h : Digits 10 cs n) :
    Spelling.number ⟨cs, places, e⟩ = n * (10 : ℚ) ^ (e - places) := by
  unfold Spelling.number
  rw [digitsValue?_eq_some_iff.mpr h]
  rfl

end Reading

/-! ## Digits laid out -/

section Layout

variable {digits : List Char} {n : Nat} {place : ℤ}

/-- Without an exponent. -/
theorem numberOf?_positional (keepsPoint : Bool) (place : ℤ) (h : Digits 10 digits n) :
    numberOf? (positional keepsPoint digits place) =
      some (n * (10 : ℚ) ^ (place - digits.length)) := by
  have hall := h.all_isDigit
  unfold positional numberOf?
  dsimp only
  split
  · next hplace =>
    -- the digits end before the point
    have hzeros := h.append_zeros (place - digits.length).toNat
    have hexponent : (10 : ℚ) ^ (place - digits.length) = 10 ^ (place - digits.length).toNat := by
      rw [← zpow_natCast]
      congr 1
      omega
    rw [hexponent]
    cases keepsPoint with
    | true =>
      have hmore := hzeros.append_zeros 1
      have hread := ofChars?_point _ ['0'] [] hzeros.all_isDigit
        (fun c hc => by rw [List.mem_singleton.mp hc]; rfl) (by simp) (by simp) rfl
      rw [List.replicate_one] at hmore
      rw [List.append_nil] at hread
      rw [if_pos rfl, hread, Option.map_some, number_of_digits hmore]
      congr 1
      push_cast
      norm_num
      ring
    | false =>
      have hread := ofChars?_whole _ [] hzeros.all_isDigit hzeros.ne_nil (by simp) rfl
      rw [if_neg Bool.false_ne_true, hread, Option.map_some, number_of_digits hzeros]
      simp
  split
  · next hlong hplace =>
    -- the point stands among the digits
    have hread := ofChars?_point (digits.take place.toNat) (digits.drop place.toNat) []
      (fun c hc => hall c (List.mem_of_mem_take hc)) (fun c hc => hall c (List.mem_of_mem_drop hc))
      (by rw [List.take_append_drop]; exact h.ne_nil) (by simp) rfl
    rw [List.append_nil, List.take_append_drop] at hread
    rw [hread, Option.map_some, number_of_digits h, List.length_drop]
    congr 3
    omega
  · next hlong hplace =>
    -- the digits start behind the point
    have hzeros := h.zeros_append (-place).toNat
    have hmore := hzeros.zeros_append 1
    rw [List.replicate_one] at hmore
    have hread := ofChars?_point ['0'] _ []
      (fun c hc => by rw [List.mem_singleton.mp hc]; rfl) hzeros.all_isDigit (by simp) (by simp) rfl
    rw [List.append_nil] at hread
    have htext : ['0', '.'] ++ List.replicate (-place).toNat '0' ++ digits =
        ['0'] ++ '.' :: (List.replicate (-place).toNat '0' ++ digits) := by simp
    rw [htext, hread, Option.map_some, number_of_digits hmore, List.length_append,
      List.length_replicate]
    congr 3
    omega

/-- With an exponent. -/
theorem numberOf?_scientific (place : ℤ) (h : Digits 10 digits n) :
    numberOf? (scientific digits place) = some (n * (10 : ℚ) ^ (place - digits.length)) := by
  have hall := h.all_isDigit
  have hexponent := readExponentPart?_written (place - 1)
  unfold scientific numberOf?
  dsimp only
  cases digits with
  | nil => exact absurd rfl h.ne_nil
  | cons c cs =>
    obtain ⟨hc, hcs⟩ := List.forall_mem_cons.mp hall
    have hone : ∀ d ∈ [c], d.isDigit = true := fun d hd => by rw [List.mem_singleton.mp hd]; exact hc
    cases cs with
    | nil =>
      have hread := ofChars?_whole _ _ hone (by simp) (by simp) hexponent
      simp only [List.take_succ_cons, List.take_zero, List.tail_cons, List.isEmpty_nil, if_true,
        List.append_nil]
      rw [hread, Option.map_some, number_of_digits h]
      simp
    | cons d cs =>
      have hread := ofChars?_point _ _ _ hone hcs (by simp) (by simp) hexponent
      simp only [List.take_succ_cons, List.take_zero, List.tail_cons, List.isEmpty_cons,
        Bool.false_eq_true, if_false, List.append_assoc, List.cons_append]
      simp only [List.cons_append, List.nil_append] at hread ⊢
      rw [hread, Option.map_some, number_of_digits h]
      congr 3
      simp only [List.length_cons]
      omega

end Layout

/-- Digits laid out in a style spell their decimal. -/
theorem numberOf?_layout (style : Style) (d : Decimal) :
    numberOf? (d.layout style) = some d.number := by
  have hdigits := digits_toDigits d.digits
  have hexponent : ((Nat.toDigits 10 d.digits).length + d.exponent : ℤ) -
      (Nat.toDigits 10 d.digits).length = d.exponent := by omega
  have hpositional := numberOf?_positional style.keepsPoint
    ((Nat.toDigits 10 d.digits).length + d.exponent) hdigits
  have hscientific := numberOf?_scientific ((Nat.toDigits 10 d.digits).length + d.exponent) hdigits
  rw [hexponent] at hpositional hscientific
  unfold Decimal.layout Decimal.number
  dsimp only
  split
  · exact hpositional
  · split
    · exact hpositional
    · exact hscientific

/-! ## The parts of a float -/

theorem eq_of_toBits {x y : Float} (h : x.toBits.toNat = y.toBits.toNat) : x = y := by
  obtain ⟨⟨b, hb⟩⟩ := x
  obtain ⟨⟨c, hc⟩⟩ := y
  have hbits : b = c := UInt64.toNat_inj.mp h
  subst hbits
  rfl

section Parts

variable {x y : Float} {negative narrow : Bool} {m : Nat} {q : ℤ}

/-- The parts of a finite float, and the bits that they are made of. -/
theorem ofFloat_eq_finite (h : Binary64.ofFloat x = .finite negative m q narrow) :
    Canonical m q ∧ narrow = isNarrow m q ∧
      x.toBits.toNat = negative.toNat * 2 ^ 63 + (q + 1074).toNat * 2 ^ 52 + m := by
  have hlt : x.toBits.toNat < 2 ^ 64 := x.toBits.toNat_lt
  unfold Binary64.ofFloat at h
  simp only [Nat.pow_eq] at h
  generalize x.toBits.toNat = b at h hlt ⊢
  have hsign : (decide (b / 2 ^ 63 = 1)).toNat = b / 2 ^ 63 := by
    by_cases hone : b / 2 ^ 63 = 1
    · rw [decide_eq_true hone, hone]
      rfl
    · rw [decide_eq_false hone]
      show 0 = b / 2 ^ 63
      omega
  split at h
  · split at h <;> cases h
  · split at h
    · cases h
      refine ⟨⟨by omega, by omega, Or.inr rfl⟩, by simp [isNarrow], ?_⟩
      rw [hsign]
      omega
    · next hspecial hexponent =>
      cases h
      refine ⟨⟨by omega, by omega, Or.inl (by omega)⟩, ?_, ?_⟩
      · unfold isNarrow
        rw [Bool.eq_iff_iff]
        simp only [Bool.and_eq_true, decide_eq_true_eq]
        omega
      · rw [hsign]
        omega

/-- Floats with the same finite parts are the same. -/
theorem eq_of_ofFloat (hx : Binary64.ofFloat x = .finite negative m q narrow)
    (hy : Binary64.ofFloat y = .finite negative m q narrow) : x = y := by
  obtain ⟨-, -, hbits⟩ := ofFloat_eq_finite hx
  obtain ⟨-, -, hbits'⟩ := ofFloat_eq_finite hy
  exact eq_of_toBits (hbits.trans hbits'.symm)

end Parts

/-! ## Different floats, different texts -/

section Texts

variable {style : Style} {x y : Float} {text : String} {m : Nat} {q : ℤ}

theorem contains_zero (q : ℤ) (narrow : Bool) : (Interval.ofBinary 0 q narrow).Contains 0 := by
  refine ⟨?_, ?_, fun hopen => by simp [Interval.ofBinary] at hopen⟩
  · simp [Interval.ofBinary]
  · rw [zero_mul]
    exact Nat.cast_nonneg _

/-- The digits of a float without its sign spell a number of its interval. -/
theorem numberOf?_body (style : Style) (h : Canonical m q) :
    ∃ r, numberOf? (if m = 0 then '0' :: (if style.keepsPoint then ['.', '0'] else [])
        else ((Interval.ofBinary m q (isNarrow m q)).shortest style.tie).layout style) = some r ∧
      (Interval.ofBinary m q (isNarrow m q)).Contains r := by
  split
  · next hm =>
    subst hm
    have hread : numberOf? ('0' :: (if style.keepsPoint then ['.', '0'] else [])) = some 0 := by
      have hzero := numberOf?_positional style.keepsPoint 1 (digits_singleton isDigit_zero)
      rw [Nat.cast_zero, zero_mul] at hzero
      exact hzero
    exact ⟨0, hread, contains_zero q _⟩
  · next hm =>
    have hnarrow : isNarrow m q = true → m ≤ 2 ^ 52 := by
      unfold isNarrow
      simp only [Bool.and_eq_true, decide_eq_true_eq]
      omega
    exact ⟨_, numberOf?_layout style _,
      Interval.shortest_contains (Nat.pos_of_ne_zero hm) h.lt hnarrow⟩

/-- The text of a finite float: a sign, and a number of its interval. -/
theorem finiteText?_eq_some (h : finiteText? style x = some text) :
    ∃ negative m q body r, Binary64.ofFloat x = .finite negative m q (isNarrow m q) ∧
      Canonical m q ∧ text.toList = (if negative then '-' :: body else body) ∧
      numberOf? body = some r ∧ (Interval.ofBinary m q (isNarrow m q)).Contains r := by
  unfold finiteText? at h
  split at h
  · cases h
  · cases h
  · next negative m q narrow hx =>
    obtain ⟨hcanonical, rfl, -⟩ := ofFloat_eq_finite hx
    obtain ⟨r, hr, hcontains⟩ := numberOf?_body style hcanonical
    refine ⟨negative, m, q, _, r, hx, hcanonical, ?_, hr, hcontains⟩
    rw [← Option.some.inj h, String.toList_ofList]

/-- A sign is not the beginning of a number without one. -/
theorem numberOf?_minus (cs : List Char) : numberOf? ('-' :: cs) = none := rfl

/-- In every style, the text of a finite float is that of no other one. -/
theorem eq_of_finiteText? (hx : finiteText? style x = some text) (hy : finiteText? style y = some text) :
    x = y := by
  obtain ⟨negative, m, q, body, r, hfloat, hm, htext, hr, hcontains⟩ := finiteText?_eq_some hx
  obtain ⟨negative', m', q', body', r', hfloat', hm', htext', hr', hcontains'⟩ :=
    finiteText?_eq_some hy
  rw [htext] at htext'
  have hsame : negative = negative' ∧ body = body' := by
    cases negative <;> cases negative'
    · exact ⟨rfl, htext'⟩
    · have hbody : body = '-' :: body' := htext'
      rw [hbody, numberOf?_minus] at hr
      cases hr
    · have hbody : '-' :: body = body' := htext'
      rw [← hbody, numberOf?_minus] at hr'
      cases hr'
    · exact ⟨rfl, (List.cons.inj htext').2⟩
  obtain ⟨rfl, rfl⟩ := hsame
  rw [hr] at hr'
  obtain rfl := Option.some.inj hr'
  obtain ⟨rfl, rfl⟩ := eq_of_contains hm hm' hcontains hcontains'
  exact eq_of_ofFloat hfloat hfloat'

end Texts

end Scriptlet.Numeral
