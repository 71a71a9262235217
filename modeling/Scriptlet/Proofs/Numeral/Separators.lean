import Scriptlet.Proofs.Numeral.Integer

/-!
# `Proofs.Numeral.Separators` — underscores between the digits of an integer

The underscores in a spelling are dropped before its digits are read, so one more of them between two
digits changes nothing. The zero in front of an octal number is the exception. It announces the radix
as a mark does, and no underscore may stand right behind it.

## Contents
- `Parts`: a spelling taken apart into a sign, the mark of a radix and a number.
- `dropSeparators?_insert`: an underscore between two other characters.
- `splitRadix_insert`: it leaves the radix as it is.
- `readInteger_insert`: reading a spelling with one more underscore.
-/

namespace Scriptlet.Numeral

/-! ## Parts of a spelling -/

/-- What announces a radix in front of a number. -/
def radixMarks : List (List Char) :=
  [['0', 'x'], ['0', 'X'], ['0', 'o'], ['0', 'O'], ['0', 'b'], ['0', 'B']]

/-- A sign, the mark of a radix and the number behind them. The first two may be missing, and are
    where the text has none in their place. -/
structure Parts (cs sign mark number : List Char) : Prop where
  eq : cs = sign ++ (mark ++ number)
  sign_mem : sign ∈ [[], ['+'], ['-']]
  mark_mem : mark ∈ [] :: radixMarks
  unsigned : sign = [] → ∀ c ∈ (mark ++ number).head?, c ≠ '+' ∧ c ≠ '-'
  unmarked : mark = [] → ∀ m ∈ radixMarks, ¬ m <+: number

/-- The value of digits whose radix and whose sign are known. -/
def signedValue? (negative : Bool) (p : Nat × List Char) : Option Int :=
  (dropSeparators? p.2).bind fun plain =>
    (digitsValue? p.1 plain).map fun n => if negative then -(n : Int) else (n : Int)

theorem integerValue?_eq (cs : List Char) :
    integerValue? cs = signedValue? (splitSign cs).1 (splitRadix (splitSign cs).2) := rfl

section Parts

variable {sign mark cs : List Char}

/-- The sign counts alone, whatever stands behind it. -/
theorem integerValue?_append (hsign : sign ∈ [[], ['+'], ['-']])
    (hcs : sign = [] → ∀ c ∈ cs.head?, c ≠ '+' ∧ c ≠ '-') :
    integerValue? (sign ++ cs) = signedValue? (sign = ['-']) (splitRadix cs) := by
  have hsplit : splitSign (sign ++ cs) = (decide (sign = ['-']), cs) := by
    simp only [List.mem_cons, List.not_mem_nil, or_false] at hsign
    rcases hsign with rfl | rfl | rfl
    · exact splitSign_unsigned (hcs rfl)
    · rfl
    · rfl
  rw [integerValue?_eq, hsplit]

/-- A mark is taken off whatever stands behind it. -/
theorem exists_splitRadix_mark (h : mark ∈ radixMarks) :
    ∃ radix, ∀ number, splitRadix (mark ++ number) = (radix, number) := by
  simp only [radixMarks, List.mem_cons, List.not_mem_nil, or_false] at h
  rcases h with rfl | rfl | rfl | rfl | rfl | rfl <;> exact ⟨_, fun _ => rfl⟩

theorem not_mark_of_unmarked {c : Char} (h : ∀ m ∈ radixMarks, ¬ m <+: '0' :: c :: cs) :
    c ≠ 'x' ∧ c ≠ 'X' ∧ c ≠ 'o' ∧ c ≠ 'O' ∧ c ≠ 'b' ∧ c ≠ 'B' := by
  simpa [radixMarks, eq_comm] using h

end Parts

/-! ## One more underscore -/

section Insert

variable {us vs : List Char} {a b : Char}

theorem underscoresSeparate_cons (c : Char) (cs : List Char) :
    underscoresSeparate (c :: cs) =
      ((c ≠ '_' || cs.head?.any (· ≠ '_')) && underscoresSeparate cs) := by
  by_cases hc : c = '_'
  · subst hc
    cases cs with
    | nil => rfl
    | cons d cs =>
      by_cases hd : d = '_'
      · subst hd
        rfl
      · rw [underscoresSeparate]
        · simp [hd]
        · simp
        · simp [hd]
  · rw [underscoresSeparate]
    · simp [hc]
    · exact fun h => absurd h hc
    · exact fun _ h => absurd h hc

variable (ha : a ≠ '_') (hb : b ≠ '_')

include ha hb

theorem underscoresSeparate_insert :
    underscoresSeparate (us ++ a :: '_' :: b :: vs) = underscoresSeparate (us ++ a :: b :: vs) := by
  induction us with
  | nil => simp [underscoresSeparate_cons, ha, hb]
  | cons u us ih =>
    -- what stands in front of the two characters is followed by the same as before
    have hhead : (us ++ a :: '_' :: b :: vs).head? = (us ++ a :: b :: vs).head? := by
      cases us <;> rfl
    rw [List.cons_append, List.cons_append, underscoresSeparate_cons, underscoresSeparate_cons, ih,
      hhead]

/-- An underscore between two other characters is dropped, and nothing else depends on it. -/
theorem dropSeparators?_insert :
    dropSeparators? (us ++ a :: '_' :: b :: vs) = dropSeparators? (us ++ a :: b :: vs) := by
  have hhead : (us ++ a :: '_' :: b :: vs).head? = (us ++ a :: b :: vs).head? := by
    cases us <;> rfl
  unfold dropSeparators?
  rw [hhead, underscoresSeparate_insert ha hb]
  simp [ha, hb]

omit ha hb

/-- Behind the zero of an octal number an underscore makes the digits start with one. -/
theorem signedValue?_leadingZero (negative : Bool) (cs : List Char) :
    signedValue? negative (splitRadix ('0' :: '_' :: cs)) = none := by
  rw [splitRadix_leadingZero (by decide)]
  rfl

/-- Anywhere else an underscore between two characters leaves the radix as it is. -/
theorem splitRadix_insert {mark : List Char} (hmark : mark ∈ [] :: radixMarks)
    (hunmarked : mark = [] → ∀ m ∈ radixMarks, ¬ m <+: us ++ a :: b :: vs)
    (hzero : ¬ (mark = [] ∧ us = [] ∧ a = '0')) :
    ∃ radix ws, splitRadix (mark ++ (us ++ a :: b :: vs)) = (radix, ws ++ a :: b :: vs) ∧
      splitRadix (mark ++ (us ++ a :: '_' :: b :: vs)) = (radix, ws ++ a :: '_' :: b :: vs) := by
  rcases List.mem_cons.mp hmark with rfl | hmark
  · have hunmarked := hunmarked rfl
    rw [List.nil_append, List.nil_append]
    cases us with
    | nil =>
      -- the number starts with the first of the two characters, so it is decimal
      have ha : a ≠ '0' := fun h => hzero ⟨rfl, rfl, h⟩
      exact ⟨10, [], splitRadix_decimal (Or.inr (by simpa using ha)),
        splitRadix_decimal (Or.inr (by simpa using ha))⟩
    | cons u us =>
      by_cases hu : u = '0'
      · subst hu
        -- the character behind the zero is the same one with the underscore and without
        refine ⟨8, us, ?_, ?_⟩
        · cases us with
          | nil => exact splitRadix_leadingZero (not_mark_of_unmarked hunmarked)
          | cons u us => exact splitRadix_leadingZero (not_mark_of_unmarked hunmarked)
        · cases us with
          | nil => exact splitRadix_leadingZero (not_mark_of_unmarked hunmarked)
          | cons u us => exact splitRadix_leadingZero (not_mark_of_unmarked hunmarked)
      · exact ⟨10, u :: us, splitRadix_decimal (Or.inr (by simpa using hu)),
          splitRadix_decimal (Or.inr (by simpa using hu))⟩
  · obtain ⟨radix, hsplit⟩ := exists_splitRadix_mark hmark
    exact ⟨radix, us, hsplit _, hsplit _⟩

end Insert

/-! ## Reading -/

/-- One more underscore between two digits of a spelling leaves the value as it is. Behind the zero of
    an octal number the spelling is one no more. -/
theorem readInteger_insert {text : String} {v : Int64} {sign mark us vs : List Char} {a b : Char}
    (h : readInteger text = some v) (hparts : Parts text.toList sign mark (us ++ a :: b :: vs))
    (ha : a ≠ '_') (hb : b ≠ '_') :
    readInteger (String.ofList (sign ++ (mark ++ (us ++ a :: '_' :: b :: vs)))) =
      if mark = [] ∧ us = [] ∧ a = '0' then none else some v := by
  have hhead : (mark ++ (us ++ a :: '_' :: b :: vs)).head? = (mark ++ (us ++ a :: b :: vs)).head? := by
    cases mark <;> cases us <;> rfl
  have hold := integerValue?_append hparts.sign_mem hparts.unsigned
  have hnew := integerValue?_append hparts.sign_mem (hhead ▸ hparts.unsigned)
  rw [readInteger_eq_some_iff, hparts.eq, hold] at h
  split
  · next hzero =>
    obtain ⟨rfl, rfl, rfl⟩ := hzero
    have hnone := hnew.trans (signedValue?_leadingZero _ (b :: vs))
    unfold readInteger
    rw [String.toList_ofList, hnone]
    rfl
  · next hzero =>
    obtain ⟨radix, ws, hsplit, hsplit'⟩ := splitRadix_insert hparts.mark_mem hparts.unmarked hzero
    rw [readInteger_eq_some_iff, String.toList_ofList, hnew, hsplit', ← h, hsplit]
    unfold signedValue?
    rw [dropSeparators?_insert ha hb]

/-- Behind the mark of a radix every place between two digits is one. -/
theorem readInteger_insert_hexadecimal :
    readInteger "-0x1F" = some (-31) ∧
      Parts "-0x1F".toList ['-'] ['0', 'x'] ([] ++ '1' :: 'F' :: []) ∧
      readInteger "-0x1_F" = some (-31) := by
  have hparts : Parts "-0x1F".toList ['-'] ['0', 'x'] ([] ++ '1' :: 'F' :: []) :=
    ⟨rfl, by decide, by decide, nofun, nofun⟩
  have hread : readInteger "-0x1F" = some (-31) := by decide
  have hinsert := readInteger_insert hread hparts (by decide) (by decide)
  rw [if_neg (by simp)] at hinsert
  exact ⟨hread, hparts, hinsert⟩

/-- The zero of an octal number is its first digit, yet no underscore may stand behind it. -/
theorem readInteger_insert_octal :
    readInteger "010" = some 8 ∧ Parts "010".toList [] [] ([] ++ '0' :: '1' :: ['0']) ∧
      readInteger (String.ofList ([] ++ ([] ++ ([] ++ '0' :: '_' :: '1' :: ['0'])))) = none :=
  ⟨by decide, ⟨rfl, by simp, by simp, by simp, by simp [radixMarks]⟩, by decide⟩

end Scriptlet.Numeral
