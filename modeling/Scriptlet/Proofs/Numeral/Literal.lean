import Scriptlet.Numeral.Reading
import Scriptlet.Proofs.Numeral.Integer
import Scriptlet.Proofs.Token.Spelling

/-!
# `Proofs.Numeral.Literal` — the values of the numbers in a text

The lexer takes numbers for what they look like, digits with a point or without one. A float of this
form always has a value. An integer has none if its first digit is a zero, so that it is octal, and an
eight or a nine comes later, or if it is too large.

## Contents
- `NoInteger`: digits without a value. `readInteger_eq_none_iff`: they are those that are not read.
- `ofChars?_of_isFloat`, `readFloat_of_isFloat`: floats are read.
-/

namespace Scriptlet.Numeral

/-! ## Integers -/

/-- Digits that no integer of 64 bits is spelled with. -/
inductive NoInteger : List Char → Prop
  | notOctal {c : Char} {cs : List Char} (hmem : c ∈ cs) (hc : c = '8' ∨ c = '9') :
    NoInteger ('0' :: cs)
  | octal {cs : List Char} {n : Nat} (h : Digits 8 cs n) (hn : 9223372036854775807 < n) :
    NoInteger ('0' :: cs)
  | decimal {cs : List Char} {n : Nat} (h : Digits 10 cs n) (hzero : cs.head? ≠ some '0')
    (hn : 9223372036854775807 < n) : NoInteger cs

section Integers

variable {radix : Nat} {c : Char} {cs : List Char} {text : String}

theorem exists_isDigit (h : c.isDigit = true) : ∃ d, IsDigit 10 c d := by
  have hoffset : ∃ k, k ≤ '9'.toNat - '0'.toNat ∧ c = Char.ofNat ('0'.toNat + k) := exists_offset h
  obtain ⟨k, hk, rfl⟩ := hoffset
  have hk : k < 10 := Nat.lt_succ_of_le hk
  refine ⟨k, hk, Or.inl ?_⟩
  interval_cases k <;> rfl

/-- A decimal digit is octal unless it is one of the last two. -/
theorem IsDigit.octal {d : Nat} (h : IsDigit 10 c d) (hc : ¬ (c = '8' ∨ c = '9')) :
    IsDigit 8 c d := by
  obtain ⟨hd, hplace⟩ := h
  refine ⟨?_, hplace⟩
  by_contra hlarge
  have hlast : d = 8 ∨ d = 9 := by omega
  rcases hlast with rfl | rfl <;> rcases hplace with hplace | hplace <;> cases hplace
  · exact hc (Or.inl rfl)
  · exact hc (Or.inl rfl)
  · exact hc (Or.inr rfl)
  · exact hc (Or.inr rfl)

theorem not_isDigit_octal (hc : c = '8' ∨ c = '9') (d : Nat) : ¬ IsDigit 8 c d := by
  rintro ⟨hd, hplace⟩
  rcases hc with rfl | rfl <;> interval_cases d <;> rcases hplace with hplace | hplace <;> cases hplace

/-- Digits have a value. -/
theorem exists_digits (hne : cs ≠ []) (h : ∀ c ∈ cs, ∃ d, IsDigit radix c d) :
    ∃ n, Digits radix cs n := by
  have hds : ∃ ds, List.Forall₂ (IsDigit radix) cs ds := by
    clear hne
    induction cs with
    | nil => exact ⟨[], .nil⟩
    | cons c cs ih =>
      obtain ⟨d, hd⟩ := h c List.mem_cons_self
      obtain ⟨ds, hds⟩ := ih fun c hc => h c (List.mem_cons_of_mem _ hc)
      exact ⟨d :: ds, .cons hd hds⟩
  obtain ⟨ds, hds⟩ := hds
  refine ⟨Nat.ofDigits radix ds.reverse, ds, ?_, hds, rfl⟩
  rintro rfl
  cases hds
  exact hne rfl

/-- Digits with a value are read unless it is too large. -/
theorem readInteger_eq_none_iff_of_unsigned {n : Nat} (hplain : '_' ∉ text.toList)
    (h : Unsigned text.toList n) : readInteger text = none ↔ 9223372036854775807 < n := by
  have hvalue : integerValue? text.toList = some (n : Int) :=
    (integerValue?_eq_some_iff hplain).mpr (.unsigned h)
  unfold readInteger
  rw [hvalue, Option.bind_some, ite_eq_right_iff]
  constructor
  · intro hnone
    by_contra hsmall
    cases hnone ⟨by omega, by omega⟩
  · rintro hn ⟨-, hsmall⟩
    omega

/-- Decimal digits behind a zero spell nothing but an octal number. -/
theorem Unsigned.octal_of_isDigit {n : Nat} (h : Unsigned ('0' :: c :: cs) n)
    (hc : ∃ d, IsDigit 10 c d) : Digits 8 (c :: cs) n := by
  obtain ⟨d, hd⟩ := hc
  obtain ⟨hx, hX, ho, hO, hb, hB⟩ := hd.not_mark (Nat.le_refl 10)
  cases h with
  | hexadecimal hm => exact absurd hm (not_or_intro hx hX)
  | octal hm => exact absurd hm (not_or_intro ho hO)
  | binary hm => exact absurd hm (not_or_intro hb hB)
  | leadingZero h => exact h
  | decimal h hzero => simp at hzero

theorem exists_isDigit_of_isInt (h : IsInt text) (hc : c ∈ text.toList) : ∃ d, IsDigit 10 c d :=
  exists_isDigit (h.digits c hc)

theorem underscore_not_mem_of_isInt (h : IsInt text) : '_' ∉ text.toList :=
  fun hmem => absurd (h.digits '_' hmem) (by decide)

/-- A number that is not read is spelled with digits that have no value. -/
theorem noInteger_of_readInteger (h : IsInt text) (hnone : readInteger text = none) :
    NoInteger text.toList := by
  have hlarge {n : Nat} (hn : Unsigned text.toList n) :=
    (readInteger_eq_none_iff_of_unsigned (underscore_not_mem_of_isInt h) hn).mp hnone
  by_cases hzero : text.toList.head? = some '0'
  · obtain ⟨cs, hcs⟩ : ∃ cs, text.toList = '0' :: cs := List.head?_eq_some_iff.mp hzero
    rw [hcs] at hlarge ⊢
    by_cases hlate : ∃ c ∈ cs, c = '8' ∨ c = '9'
    · obtain ⟨c, hmem, hc⟩ := hlate
      exact .notOctal hmem hc
    by_cases hne : cs = []
    · -- a zero alone is read
      subst hne
      have hone := hlarge (.decimal (digits_singleton (d := 0) ⟨by decide, Or.inl rfl⟩) (Or.inl rfl))
      exact absurd hone (Nat.not_lt_zero _)
    · have hoctal : ∀ c ∈ cs, ∃ d, IsDigit 8 c d := by
        intro c hc
        obtain ⟨d, hd⟩ := exists_isDigit_of_isInt h (hcs ▸ List.mem_cons_of_mem '0' hc)
        exact ⟨d, hd.octal fun hlast => hlate ⟨c, hc, hlast⟩⟩
      obtain ⟨n, hn⟩ := exists_digits hne hoctal
      exact .octal hn (hlarge (.leadingZero hn))
  · obtain ⟨n, hn⟩ := exists_digits h.ne_nil fun c => exists_isDigit_of_isInt h
    exact .decimal hn hzero (hlarge (.decimal hn (Or.inr hzero)))

/-- Digits behind a zero of which one is not octal are not read. -/
theorem readInteger_eq_none_of_notOctal (h : IsInt text) (hcs : text.toList = '0' :: cs)
    (hmem : c ∈ cs) (hc : c = '8' ∨ c = '9') : readInteger text = none := by
  rw [Option.eq_none_iff_forall_ne_some]
  intro v hv
  have hvalue : integerValue? text.toList = some v.toInt := readInteger_eq_some_iff.mp hv
  have hspells := (integerValue?_eq_some_iff (underscore_not_mem_of_isInt h)).mp hvalue
  rw [hcs] at hspells
  generalize v.toInt = m at hspells
  cases hspells with
  | unsigned hn =>
    obtain ⟨b, bs, rfl⟩ := List.exists_cons_of_ne_nil (List.ne_nil_of_mem hmem)
    have hb : ∃ d, IsDigit 10 b d := exists_isDigit_of_isInt h (by rw [hcs]; simp)
    obtain ⟨d, hd⟩ := (hn.octal_of_isDigit hb).isDigit hmem
    exact not_isDigit_octal hc d hd

/-- The integers of a text that are not read. -/
theorem readInteger_eq_none_iff (h : IsInt text) :
    readInteger text = none ↔ NoInteger text.toList := by
  refine ⟨noInteger_of_readInteger h, fun hno => ?_⟩
  have hread {n : Nat} (hn : Unsigned text.toList n) (hlarge : 9223372036854775807 < n) :=
    (readInteger_eq_none_iff_of_unsigned (underscore_not_mem_of_isInt h) hn).mpr hlarge
  generalize hcs : text.toList = cs at hno hread
  cases hno with
  | notOctal hmem hc => exact readInteger_eq_none_of_notOctal h hcs hmem hc
  | octal hn hlarge => exact hread (.leadingZero hn) hlarge
  | decimal hn hzero hlarge => exact hread (.decimal hn (Or.inr hzero)) hlarge

end Integers

/-! ## Floats -/

section Floats

variable {text : String} {whole places : List Char}

/-- The parts of a float that the lexer gives. -/
theorem ofChars?_of_isFloat (h : IsFloat text whole places) :
    Spelling.ofChars? text.toList = some ⟨whole ++ places, places.length, 0⟩ := by
  have hwhole := span_append (fun c hc => h.digits c (List.mem_append_left places hc))
    (r := '.' :: places) (by simp)
  have hplaces := span_append (r := []) (fun c hc => h.digits c (List.mem_append_right whole hc))
    (by simp)
  rw [List.append_nil] at hplaces
  have hsome : (whole.isEmpty && places.isEmpty) = false := by
    simpa [List.isEmpty_iff] using h.ne_nil
  unfold Spelling.ofChars?
  rw [h.eq, hwhole.1, hwhole.2]
  simp only [hplaces.1, hplaces.2, hsome]
  rfl

/-- No sign stands before a float that the lexer gives. -/
theorem splitSign_of_isFloat (h : IsFloat text whole places) :
    splitSign text.toList = (false, text.toList) := by
  refine splitSign_unsigned fun c hc => ?_
  have hmem : c ∈ whole ∨ c = '.' ∨ c ∈ places := by
    simpa [h.eq] using List.mem_of_mem_head? hc
  have hdigit : c ∈ whole ++ places → c ≠ '+' ∧ c ≠ '-' := fun hmem =>
    have ⟨_, hd⟩ := exists_isDigit (h.digits c hmem)
    hd.not_sign
  rcases hmem with hmem | rfl | hmem
  · exact hdigit (List.mem_append_left places hmem)
  · decide
  · exact hdigit (List.mem_append_right whole hmem)

/-- A float that the lexer gives is read. -/
theorem readFloat_of_isFloat (h : IsFloat text whole places) : (readFloat text).isSome := by
  unfold readFloat
  rw [splitSign_of_isFloat h]
  dsimp only
  rw [ofChars?_of_isFloat h, Option.isSome_map, Option.isSome_or]
  simp

end Floats

end Scriptlet.Numeral
