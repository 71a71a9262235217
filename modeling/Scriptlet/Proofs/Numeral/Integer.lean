import Mathlib.Data.List.Forall2
import Mathlib.Data.Nat.Digits.Defs
import Mathlib.Tactic.IntervalCases
import Scriptlet.Eval.Builtins

/-!
# `Proofs.Numeral.Integer` — which texts spell integers

Without underscores the spellings of integers are a small language, given here as an inductive
relation between characters and values: a sign or none, the mark of a radix, digits. Reading decides
this language and computes its values, as far as they fit in 64 bits. The decimal digits that an
integer is printed with are one of its spellings.

## Contents
- `IsDigit`, `Digits`: digits of a radix and the value of several. `digitsValue?_eq_some_iff`: it is
  what is computed.
- `Unsigned`, `SpellsInteger`: the spellings. `splitRadix_iff`, `integerValue?_eq_some_iff`: they are
  what is read.
- `spellsInteger_toString`: the decimal text of an integer spells it.
- `integers_read`: reading, and reading what was printed.
-/

namespace Scriptlet.Numeral

/-! ## Digits -/

/-- The value of a digit in a radix of at most sixteen is its place among the digits of one case. -/
def IsDigit (radix : Nat) (c : Char) (d : Nat) : Prop :=
  d < radix ∧ ("0123456789abcdef".toList[d]? = some c ∨ "0123456789ABCDEF".toList[d]? = some c)

/-- The digits of a number in a radix, at least one, the highest first. -/
def Digits (radix : Nat) (cs : List Char) (n : Nat) : Prop :=
  ∃ ds : List Nat, ds ≠ [] ∧ List.Forall₂ (IsDigit radix) cs ds ∧ n = Nat.ofDigits radix ds.reverse

section Digits

variable {radix d n : Nat} {c : Char} {cs : List Char}

/-- A character in a range is one of finitely many. -/
theorem exists_offset {low high : Char} (h : (decide (low ≤ c) && decide (c ≤ high)) = true) :
    ∃ k, k ≤ high.toNat - low.toNat ∧ c = Char.ofNat (low.toNat + k) := by
  simp only [Bool.and_eq_true, decide_eq_true_eq, Char.le_def, UInt32.le_iff_toNat_le] at h
  have hlow : low.toNat ≤ c.toNat := h.1
  have hhigh : c.toNat ≤ high.toNat := h.2
  refine ⟨c.toNat - low.toNat, by omega, ?_⟩
  rw [Nat.add_sub_cancel' hlow, Char.ofNat_toNat]

theorem IsDigit.lt_sixteen (h : IsDigit radix c d) : d < 16 := by
  rcases h.2 with hc | hc <;> exact (List.getElem?_eq_some_iff.mp hc).1

theorem digitValue?_eq_some_iff : digitValue? radix c = some d ↔ IsDigit radix c d := by
  unfold digitValue? IsDigit
  rw [Option.filter_eq_some_iff, decide_eq_true_eq, and_comm, and_congr_right_iff]
  intro hradix
  constructor
  · intro h
    split at h
    · next hc =>
      obtain ⟨k, hk, rfl⟩ := exists_offset hc
      have hk : k ≤ 9 := hk
      interval_cases k <;> cases h <;> decide
    split at h
    · next hc =>
      obtain ⟨k, hk, rfl⟩ := exists_offset hc
      have hk : k ≤ 5 := hk
      interval_cases k <;> cases h <;> decide
    split at h
    · next hc =>
      obtain ⟨k, hk, rfl⟩ := exists_offset hc
      have hk : k ≤ 5 := hk
      interval_cases k <;> cases h <;> decide
    · cases h
  · intro h
    have hd : d < 16 := IsDigit.lt_sixteen ⟨hradix, h⟩
    interval_cases d <;> rcases h with h | h <;> cases h <;> decide

/-- Digits behind others whose value is known. -/
theorem digitsValueFrom?_eq_some_iff {high : Nat} :
    digitsValueFrom? radix high cs = some n ↔
      ∃ ds, List.Forall₂ (IsDigit radix) cs ds ∧ n = Nat.ofDigits radix (ds.reverse ++ [high]) := by
  induction cs generalizing high with
  | nil => simp [digitsValueFrom?, eq_comm]
  | cons c cs ih =>
    -- the first digit is the last but one of those that count from the lowest
    have hshift (ds : List Nat) (d : Nat) : Nat.ofDigits radix (ds.reverse ++ [high * radix + d]) =
        Nat.ofDigits radix ((d :: ds).reverse ++ [high]) := by
      rw [List.reverse_cons, List.append_assoc, Nat.ofDigits_append, Nat.ofDigits_append]
      simp [Nat.ofDigits_cons, Nat.mul_comm, Nat.add_comm]
    unfold digitsValueFrom?
    simp only [Option.bind_eq_some_iff, digitValue?_eq_some_iff, ih]
    constructor
    · rintro ⟨d, hd, ds, hds, rfl⟩
      exact ⟨d :: ds, .cons hd hds, hshift ds d⟩
    · rintro ⟨ds, hds, rfl⟩
      cases hds with
      | @cons _ d _ ds hd hds => exact ⟨d, hd, ds, hds, (hshift ds d).symm⟩

/-- The value of digits is the one that is computed. -/
theorem digitsValue?_eq_some_iff : digitsValue? radix cs = some n ↔ Digits radix cs n := by
  unfold digitsValue? Digits
  cases cs with
  | nil => simp
  | cons c cs =>
    rw [if_neg (by simp), digitsValueFrom?_eq_some_iff]
    have hzero (ds : List Nat) : Nat.ofDigits radix (ds.reverse ++ [0]) =
        Nat.ofDigits radix ds.reverse := by simp [Nat.ofDigits_append]
    constructor
    · rintro ⟨ds, hds, rfl⟩
      refine ⟨ds, ?_, hds, hzero ds⟩
      rintro rfl
      cases hds
    · rintro ⟨ds, -, hds, rfl⟩
      exact ⟨ds, hds, (hzero ds).symm⟩

/-- A further digit. -/
theorem Digits.concat (h : Digits radix cs n) (hc : IsDigit radix c d) :
    Digits radix (cs ++ [c]) (radix * n + d) := by
  obtain ⟨ds, -, hds, rfl⟩ := h
  refine ⟨ds ++ [d], by simp, ?_, ?_⟩
  · exact List.rel_append hds (.cons hc .nil)
  · rw [List.reverse_append, List.reverse_singleton, List.singleton_append, Nat.ofDigits_cons]
    simp [Nat.add_comm]

theorem digits_singleton (h : IsDigit radix c d) : Digits radix [c] d :=
  ⟨[d], List.cons_ne_nil d [], .cons h .nil, by simp⟩

theorem Digits.ne_nil (h : Digits radix cs n) : cs ≠ [] := by
  obtain ⟨ds, hne, hds, -⟩ := h
  rintro rfl
  cases hds
  exact hne rfl

theorem Digits.isDigit (h : Digits radix cs n) (hc : c ∈ cs) : ∃ d, IsDigit radix c d := by
  obtain ⟨ds, -, hds, -⟩ := h
  induction hds with
  | nil => cases hc
  | @cons a d cs ds hd _ ih =>
    rcases List.mem_cons.mp hc with rfl | hc
    · exact ⟨d, hd⟩
    · exact ih hc

end Digits

/-! ## Spellings -/

/-- The spellings of a natural number: digits behind the mark of a radix, octal digits behind a zero,
    or decimal digits that do not start with a zero, unless that is all. -/
inductive Unsigned : List Char → Nat → Prop
  | hexadecimal {m : Char} {cs : List Char} {n : Nat} (hm : m = 'x' ∨ m = 'X') (h : Digits 16 cs n) :
    Unsigned ('0' :: m :: cs) n
  | octal {m : Char} {cs : List Char} {n : Nat} (hm : m = 'o' ∨ m = 'O') (h : Digits 8 cs n) :
    Unsigned ('0' :: m :: cs) n
  | binary {m : Char} {cs : List Char} {n : Nat} (hm : m = 'b' ∨ m = 'B') (h : Digits 2 cs n) :
    Unsigned ('0' :: m :: cs) n
  | leadingZero {cs : List Char} {n : Nat} (h : Digits 8 cs n) : Unsigned ('0' :: cs) n
  | decimal {cs : List Char} {n : Nat} (h : Digits 10 cs n)
    (hzero : cs = ['0'] ∨ cs.head? ≠ some '0') : Unsigned cs n

/-- The spellings of an integer: those of a natural number with a sign or without one. -/
inductive SpellsInteger : List Char → Int → Prop
  | unsigned {cs : List Char} {n : Nat} (h : Unsigned cs n) : SpellsInteger cs n
  | plus {cs : List Char} {n : Nat} (h : Unsigned cs n) : SpellsInteger ('+' :: cs) n
  | minus {cs : List Char} {n : Nat} (h : Unsigned cs n) : SpellsInteger ('-' :: cs) (-n)

section Spellings

variable {cs : List Char} {n : Nat}

/-- No digit of a radix up to ten announces another radix. -/
theorem IsDigit.not_mark {radix d : Nat} {c : Char} (h : IsDigit radix c d) (hradix : radix ≤ 10) :
    c ≠ 'x' ∧ c ≠ 'X' ∧ c ≠ 'o' ∧ c ≠ 'O' ∧ c ≠ 'b' ∧ c ≠ 'B' := by
  obtain ⟨hd, hc⟩ := h
  have hd : d < 10 := Nat.lt_of_lt_of_le hd hradix
  interval_cases d <;> rcases hc with hc | hc <;> cases hc <;> decide

/-- No digit is a sign. -/
theorem IsDigit.not_sign {radix d : Nat} {c : Char} (h : IsDigit radix c d) : c ≠ '+' ∧ c ≠ '-' := by
  have hd : d < 16 := h.lt_sixteen
  obtain ⟨-, hc⟩ := h
  interval_cases d <;> rcases hc with hc | hc <;> cases hc <;> decide

/-- A zero in front of something that announces no radix is the first digit of an octal number. -/
theorem splitRadix_leadingZero {c : Char}
    (hc : c ≠ 'x' ∧ c ≠ 'X' ∧ c ≠ 'o' ∧ c ≠ 'O' ∧ c ≠ 'b' ∧ c ≠ 'B') :
    splitRadix ('0' :: c :: cs) = (8, c :: cs) := by
  obtain ⟨h1, h2, h3, h4, h5, h6⟩ := hc
  unfold splitRadix
  simp [h1, h2, h3, h4, h5, h6]

/-- Any other text is decimal. -/
theorem splitRadix_decimal (hcs : cs = ['0'] ∨ cs.head? ≠ some '0') : splitRadix cs = (10, cs) := by
  unfold splitRadix
  split
  · simp at hcs
  · rfl

/-- The digits behind what announces their radix make an unsigned spelling. -/
theorem splitRadix_iff : Digits (splitRadix cs).1 (splitRadix cs).2 n ↔ Unsigned cs n := by
  constructor
  · intro h
    unfold splitRadix at h
    split at h
    · next c cs =>
      split at h
      · next hm => exact .hexadecimal (by simpa using hm) h
      split at h
      · next hm => exact .octal (by simpa using hm) h
      split at h
      · next hm => exact .binary (by simpa using hm) h
      · exact .leadingZero h
    · next hne =>
      refine .decimal h ?_
      cases cs with
      | nil => exact Or.inr (by simp)
      | cons c cs =>
        by_cases hc : c = '0'
        · subst hc
          cases cs with
          | nil => exact Or.inl rfl
          | cons d cs => exact absurd rfl (hne d cs)
        · exact Or.inr (by simpa using hc)
  · intro h
    cases h with
    | hexadecimal hm h => rcases hm with rfl | rfl <;> exact h
    | octal hm h => rcases hm with rfl | rfl <;> exact h
    | binary hm h => rcases hm with rfl | rfl <;> exact h
    | @leadingZero ds _ h =>
      obtain ⟨c, ds, rfl⟩ := List.exists_cons_of_ne_nil h.ne_nil
      obtain ⟨d, hd⟩ := h.isDigit List.mem_cons_self
      rw [splitRadix_leadingZero (hd.not_mark (by decide))]
      exact h
    | decimal h hzero =>
      rw [splitRadix_decimal hzero]
      exact h

/-- Without underscores there is nothing to leave out. -/
theorem dropSeparators?_of_not_mem (h : '_' ∉ cs) : dropSeparators? cs = some cs := by
  have hseparate : underscoresSeparate cs = true := by
    fun_induction underscoresSeparate cs with
    | case1 => rfl
    | case2 | case3 => simp at h
    | case4 _ _ _ _ ih => exact ih fun hc => h (List.mem_cons_of_mem _ hc)
  have hhead : cs.head? ≠ some '_' := fun hc => h (List.mem_of_mem_head? hc)
  have hfilter : cs.filter (· ≠ '_') = cs := by
    refine List.filter_eq_self.mpr fun c hc => ?_
    rw [decide_eq_true_eq]
    rintro rfl
    exact h hc
  unfold dropSeparators?
  rw [hfilter, hseparate, if_pos (by simp [hhead])]

theorem splitSign_suffix (cs : List Char) : (splitSign cs).2 <:+ cs := by
  unfold splitSign
  split
  · exact List.suffix_cons _ _
  · exact List.suffix_cons _ _
  · exact List.suffix_refl _

theorem splitRadix_suffix (cs : List Char) : (splitRadix cs).2 <:+ cs := by
  unfold splitRadix
  split
  · next c cs =>
    have hmark : cs <:+ '0' :: c :: cs := (List.suffix_cons c cs).trans (List.suffix_cons '0' _)
    split
    · exact hmark
    split
    · exact hmark
    split
    · exact hmark
    · exact List.suffix_cons '0' _
  · exact List.suffix_refl _

/-- Without underscores the value is that of the digits behind the sign and the mark of a radix. -/
theorem integerValue?_of_not_mem (h : '_' ∉ cs) :
    integerValue? cs =
      (digitsValue? (splitRadix (splitSign cs).2).1 (splitRadix (splitSign cs).2).2).map
        fun n : Nat => if (splitSign cs).1 then -(n : Int) else (n : Int) := by
  have hdigits : '_' ∉ (splitRadix (splitSign cs).2).2 := fun hmem =>
    h ((splitSign_suffix cs).subset ((splitRadix_suffix _).subset hmem))
  unfold integerValue?
  dsimp only
  rw [dropSeparators?_of_not_mem hdigits, Option.bind_some]
  cases digitsValue? (splitRadix (splitSign cs).2).1 (splitRadix (splitSign cs).2).2 <;> rfl

theorem Unsigned.not_sign (h : Unsigned cs n) : ∀ c ∈ cs.head?, c ≠ '+' ∧ c ≠ '-' := by
  cases h with
  | hexadecimal | octal | binary | leadingZero =>
    intro c hc
    cases hc
    decide
  | decimal h =>
    intro c hc
    obtain ⟨d, hd⟩ := h.isDigit (List.mem_of_mem_head? hc)
    exact hd.not_sign

theorem splitSign_unsigned (h : ∀ c ∈ cs.head?, c ≠ '+' ∧ c ≠ '-') : splitSign cs = (false, cs) := by
  unfold splitSign
  split
  · exact absurd rfl (h '-' rfl).2
  · exact absurd rfl (h '+' rfl).1
  · rfl

/-- What is read are the spellings with their values. -/
theorem integerValue?_eq_some_iff (h : '_' ∉ cs) {m : Int} :
    integerValue? cs = some m ↔ SpellsInteger cs m := by
  rw [integerValue?_of_not_mem h]
  simp only [Option.map_eq_some_iff, digitsValue?_eq_some_iff, splitRadix_iff]
  constructor
  · rintro ⟨n, hn, rfl⟩
    unfold splitSign at hn ⊢
    split at hn
    · exact .minus hn
    · exact .plus hn
    · exact .unsigned hn
  · intro hm
    cases hm with
    | unsigned hn =>
      rw [splitSign_unsigned hn.not_sign]
      exact ⟨_, hn, rfl⟩
    | plus hn => exact ⟨_, hn, rfl⟩
    | minus hn => exact ⟨_, hn, rfl⟩

end Spellings

/-! ## Sixty-four bits -/

theorem inRange_toInt (v : Int64) : InRange v.toInt :=
  ⟨Int64.le_toInt v, Int.le_of_lt_add_one (Int64.toInt_lt v)⟩

theorem toInt_ofInt_of_inRange {n : Int} (h : InRange n) : (Int64.ofInt n).toInt = n := by
  exact Int64.toInt_ofInt_of_le h.1 (Int.lt_add_one_of_le h.2)

/-- Reading gives the integers whose exact value was spelled. -/
theorem readInteger_eq_some_iff {text : String} {v : Int64} :
    readInteger text = some v ↔ integerValue? text.toList = some v.toInt := by
  unfold readInteger
  rw [Option.bind_eq_some_iff]
  constructor
  · rintro ⟨n, hn, hv⟩
    split at hv
    · next hrange =>
      cases hv
      rw [hn, toInt_ofInt_of_inRange hrange]
    · cases hv
  · intro hn
    exact ⟨v.toInt, hn, by rw [if_pos (inRange_toInt v), Int64.ofInt_toInt]⟩

/-! ## Printing -/

theorem isDigit_digitChar {d : Nat} (hd : d < 10) : IsDigit 10 d.digitChar d := by
  refine ⟨hd, Or.inl ?_⟩
  interval_cases d <;> rfl

/-- The decimal digits of a natural number have its value. -/
theorem digits_toDigits (n : Nat) : Digits 10 (Nat.toDigits 10 n) n := by
  induction n using Nat.strongRecOn with
  | ind n ih =>
    rw [Nat.toDigits_eq_if (by decide)]
    split
    · next hn => exact digits_singleton (isDigit_digitChar hn)
    · next hn =>
      have hmore := (ih (n / 10) (by omega)).concat (isDigit_digitChar (d := n % 10) (by omega))
      rwa [Nat.div_add_mod] at hmore

/-- They do not start with a zero, except for zero itself. -/
theorem toDigits_head {n : Nat} (hn : n ≠ 0) : (Nat.toDigits 10 n).head? ≠ some '0' := by
  induction n using Nat.strongRecOn with
  | ind n ih =>
    rw [Nat.toDigits_eq_if (by decide)]
    split
    · next hlt => interval_cases n <;> first | exact absurd rfl hn | decide
    · next hlt =>
      rw [List.head?_append_of_ne_nil _ Nat.toDigits_ne_nil]
      exact ih (n / 10) (by omega) (by omega)

theorem unsigned_toDigits (n : Nat) : Unsigned (Nat.toDigits 10 n) n := by
  refine .decimal (digits_toDigits n) ?_
  by_cases hn : n = 0
  · rw [hn, Nat.toDigits_zero]
    exact Or.inl rfl
  · exact Or.inr (toDigits_head hn)

theorem toList_toString_ofNat (n : Nat) : (toString (Int.ofNat n)).toList = Nat.toDigits 10 n := by
  show n.repr.toList = _
  rw [Nat.repr_eq_ofList_toDigits, String.toList_ofList]

theorem toList_toString_negSucc (n : Nat) :
    (toString (Int.negSucc n)).toList = '-' :: Nat.toDigits 10 n.succ := by
  show ("-" ++ n.succ.repr).toList = _
  rw [Nat.repr_eq_ofList_toDigits, String.toList_append]
  exact congrArg ('-' :: ·) String.toList_ofList

/-- The decimal text of an integer is one of its spellings, and holds no underscore. -/
theorem spellsInteger_toString (m : Int) :
    SpellsInteger (toString m).toList m ∧ '_' ∉ (toString m).toList := by
  cases m with
  | ofNat n =>
    rw [toList_toString_ofNat]
    exact ⟨.unsigned (unsigned_toDigits n), Nat.underscore_not_in_toDigits⟩
  | negSucc n =>
    rw [toList_toString_negSucc]
    refine ⟨.minus (unsigned_toDigits n.succ), ?_⟩
    simp [Nat.underscore_not_in_toDigits]

end Scriptlet.Numeral

namespace Scriptlet.Eval

open Numeral

/-- A text without underscores is read as an integer just where it spells one of 64 bits, and then as
    this one. What is printed for an integer is read as this integer. -/
theorem integers_read :
    (∀ text : String, '_' ∉ text.toList →
      (∀ v : Int64, readInteger text = some v ↔
        ∃ n, SpellsInteger text.toList n ∧ -2 ^ 63 ≤ n ∧ n ≤ 2 ^ 63 - 1 ∧ v.toInt = n) ∧
      (readInteger text = none ↔
        ∀ n, SpellsInteger text.toList n → ¬ (-2 ^ 63 ≤ n ∧ n ≤ 2 ^ 63 - 1))) ∧
    ∀ n : Int64, ∃ text : Value, Builtin.string.answer [.int n] = .ok (.value text) ∧
      Builtin.int.answer [text] = .ok (.value (.int n)) := by
  have hread : ∀ text : String, '_' ∉ text.toList → ∀ v : Int64,
      readInteger text = some v ↔ SpellsInteger text.toList v.toInt := fun text h v => by
    rw [readInteger_eq_some_iff, integerValue?_eq_some_iff h]
  refine ⟨fun text h => ⟨fun v => ?_, ?_⟩, fun n => ?_⟩
  · rw [hread text h v]
    constructor
    · intro hv
      exact ⟨v.toInt, hv, (inRange_toInt v).1, (inRange_toInt v).2, rfl⟩
    · rintro ⟨n, hn, -, -, rfl⟩
      exact hn
  · rw [Option.eq_none_iff_forall_ne_some]
    constructor
    · intro hnone n hn hrange
      refine hnone (Int64.ofInt n) ((hread text h _).mpr ?_)
      rw [toInt_ofInt_of_inRange hrange]
      exact hn
    · intro hout v hv
      exact hout v.toInt ((hread text h v).mp hv) (inRange_toInt v)
  · refine ⟨.str (toString n.toInt), rfl, ?_⟩
    obtain ⟨hspells, hfree⟩ := spellsInteger_toString n.toInt
    have hback : toInteger (.str (toString n.toInt)) = .ok n := by
      rw [toInteger, (hread _ hfree n).mpr hspells]
    show (do return Answer.value (.int (← toInteger (.str (toString n.toInt))))) = _
    rw [hback]
    rfl

/-- The least integer may be spelled in any radix. -/
theorem integers_read_least :
    '_' ∉ "-0x8000000000000000".toList ∧
      readInteger "-0x8000000000000000" = some (Int64.ofInt (-2 ^ 63)) ∧
      SpellsInteger "-0x8000000000000000".toList (-2 ^ 63) := by
  have hfree : '_' ∉ "-0x8000000000000000".toList := by decide
  have hread : readInteger "-0x8000000000000000" = some (Int64.ofInt (-2 ^ 63)) := by decide
  obtain ⟨n, hn, -, -, hvalue⟩ :=
    ((integers_read.1 "-0x8000000000000000" hfree).1 (Int64.ofInt (-2 ^ 63))).mp hread
  have hleast : (Int64.ofInt (-2 ^ 63)).toInt = -2 ^ 63 := by decide
  rw [← hvalue, hleast] at hn
  exact ⟨hfree, hread, hn⟩

end Scriptlet.Eval
