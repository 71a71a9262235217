/-!
# `Text.Split` — cutting a text at a separator

The separator is looked for from the left and occurrences do not overlap. A text with `n` occurrences
has `n + 1` pieces, some of them perhaps empty, and the pieces with the separator between them are the
text again.

## Contents
- `splitAll`: cut at every occurrence, `splitFirst`: at the first one.
- `splitAll_ne_nil`, `intercalate_splitAll`: there is a piece, and the pieces make up the text.
-/

namespace Scriptlet.Text

/-- Puts a character in front of the first piece. -/
def consFirst (c : Char) : List (List Char) → List (List Char)
  | [] => [[c]]
  | piece :: pieces => (c :: piece) :: pieces

/-- The pieces of a text cut at every occurrence of `s :: sep`. -/
def splitAll (s : Char) (sep : List Char) (cs : List Char) : List (List Char) :=
  match cs with
  | [] => [[]]
  | c :: r =>
    if (s :: sep).isPrefixOf (c :: r) then [] :: splitAll s sep (r.drop sep.length)
    else consFirst c (splitAll s sep r)
termination_by cs.length
decreasing_by all_goals simp only [List.length_cons, List.length_drop]; omega

/-- The two pieces of a text cut at the first occurrence of the separator, the whole text where there
    is none. -/
def splitFirst (sep : List Char) : List Char → List (List Char)
  | [] => [[]]
  | c :: r =>
    if sep.isPrefixOf (c :: r) then [[], (c :: r).drop sep.length]
    else consFirst c (splitFirst sep r)

theorem consFirst_ne_nil (c : Char) (pieces : List (List Char)) : consFirst c pieces ≠ [] := by
  cases pieces <;> simp [consFirst]

theorem splitAll_ne_nil (s : Char) (sep cs : List Char) : splitAll s sep cs ≠ [] := by
  unfold splitAll
  split
  · simp
  · split
    · simp
    · exact consFirst_ne_nil _ _

theorem intercalate_consFirst {sep : List Char} {c : Char} {pieces : List (List Char)}
    (h : pieces ≠ []) : sep.intercalate (consFirst c pieces) = c :: sep.intercalate pieces := by
  cases pieces with
  | nil => contradiction
  | cons piece rest => cases rest <;> simp [consFirst]

/-- The pieces with the separator between them are the text. -/
theorem intercalate_splitAll (s : Char) (sep cs : List Char) :
    (s :: sep).intercalate (splitAll s sep cs) = cs := by
  fun_induction splitAll s sep cs with
  | case1 => rfl
  | case2 c r h ih =>
    rw [List.intercalate_cons_of_ne_nil (splitAll_ne_nil _ _ _), ih]
    obtain ⟨t, ht⟩ := List.isPrefixOf_iff_prefix.mp h
    simp only [List.cons_append, List.cons.injEq] at ht
    simp [← ht.1, ← ht.2]
  | case3 c r h ih => rw [intercalate_consFirst (splitAll_ne_nil _ _ _), ih]

end Scriptlet.Text
