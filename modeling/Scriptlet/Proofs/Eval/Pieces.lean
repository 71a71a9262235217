import Scriptlet.Proofs.Eval.Sequences

/-!
# `Proofs.Eval.Pieces` — texts cut at a separator and joined again

However a text is cut at a separator, its pieces with the separator between them are the text again.
Cutting at every occurrence leaves no occurrence inside a piece, and what stands before the first
occurrence is the first piece of either way to cut.

## Contents
- `not_infix_of_mem_splitAll`: the pieces between all occurrences. The search goes from left to right,
  so a piece is a beginning of what is left of the text (`head_splitAll_prefix`).
- `splitFirst_cases`: the pieces around the first occurrence.
- `intercalate_piecesOf`, `intercalate_firstPiecesOf`: the pieces make up the text, whatever the
  separator is.
- `apply_join`: joining strings. `split_joined`: what cutting and joining do.
-/

namespace Scriptlet

/-! ## Cutting at every occurrence -/

namespace Text

variable {s : Char} {sep cs : List Char}

theorem head_consFirst {c : Char} {pieces : List (List Char)} {piece : List Char}
    (h : pieces.head? = some piece) : (consFirst c pieces).head? = some (c :: piece) := by
  cases pieces with
  | nil => cases h
  | cons first rest =>
    cases h
    rfl

theorem head_of_intercalate {pieces : List (List Char)} {piece : List Char}
    (h : pieces.head? = some piece) : piece <+: sep.intercalate pieces := by
  cases pieces with
  | nil => cases h
  | cons first rest =>
    cases h
    cases rest with
    | nil => exact ⟨[], by rw [List.append_nil, List.intercalate_singleton]⟩
    | cons second rest =>
      rw [List.intercalate_cons_cons, List.append_assoc]
      exact List.prefix_append piece _

/-- The first piece is a beginning of the text. -/
theorem head_splitAll_prefix {piece : List Char} (h : (splitAll s sep cs).head? = some piece) :
    piece <+: cs := by
  have hprefix : piece <+: (s :: sep).intercalate (splitAll s sep cs) := head_of_intercalate h
  rwa [intercalate_splitAll] at hprefix

/-- The separator occurs in no piece. -/
theorem not_infix_of_mem_splitAll (s : Char) (sep cs : List Char) :
    ∀ piece ∈ splitAll s sep cs, ¬ (s :: sep) <:+: piece := by
  fun_induction splitAll s sep cs with
  | case1 =>
    intro piece hpiece hsep
    rw [List.mem_singleton.mp hpiece] at hsep
    cases List.infix_nil.mp hsep
  | case2 c r h ih =>
    intro piece hpiece hsep
    rcases List.mem_cons.mp hpiece with rfl | hpiece
    · cases List.infix_nil.mp hsep
    · exact ih piece hpiece hsep
  | case3 c r h ih =>
    cases hpieces : splitAll s sep r with
    | nil => exact absurd hpieces (splitAll_ne_nil s sep r)
    | cons first rest =>
      rw [hpieces] at ih
      intro piece hpiece hsep
      rcases List.mem_cons.mp hpiece with rfl | hpiece
      · rcases List.infix_cons_iff.mp hsep with hprefix | hinfix
        · -- an occurrence at the start of the piece is one at the start of the text
          have hhead : (splitAll s sep r).head? = some first := by rw [hpieces]; rfl
          have hfirst : first <+: r := head_splitAll_prefix hhead
          have hstart : (s :: sep) <+: c :: r :=
            hprefix.trans ((List.prefix_cons_inj c).mpr hfirst)
          exact h (List.isPrefixOf_iff_prefix.mpr hstart)
        · exact ih first List.mem_cons_self hinfix
      · exact ih piece (List.mem_cons_of_mem first hpiece) hsep

/-! ## Cutting at the first occurrence -/

/-- There are two pieces around the first occurrence, or the text is the only piece. The first piece
    is the same as the first one between all occurrences. -/
theorem splitFirst_cases (s : Char) (sep cs : List Char) :
    ∃ first rest, splitFirst (s :: sep) cs = first :: rest ∧ rest.length ≤ 1 ∧
      (splitAll s sep cs).head? = some first ∧ (s :: sep).intercalate (first :: rest) = cs := by
  induction cs with
  | nil => exact ⟨[], [], rfl, Nat.zero_le 1, by rw [splitAll]; rfl, rfl⟩
  | cons c r ih =>
    unfold splitFirst splitAll
    by_cases h : (s :: sep).isPrefixOf (c :: r) = true
    · rw [if_pos h, if_pos h]
      obtain ⟨t, ht⟩ := List.isPrefixOf_iff_prefix.mp h
      refine ⟨[], [(c :: r).drop (s :: sep).length], rfl, Nat.le_refl 1, rfl, ?_⟩
      rw [← ht, List.drop_left, List.intercalate_cons_cons, List.intercalate_singleton]
      rfl
    · rw [if_neg h, if_neg h]
      obtain ⟨first, rest, hsplit, hlength, hhead, hjoin⟩ := ih
      refine ⟨c :: first, rest, ?_, hlength, head_consFirst hhead, ?_⟩
      · rw [hsplit]
        rfl
      · show (s :: sep).intercalate (consFirst c (first :: rest)) = c :: r
        rw [intercalate_consFirst (List.cons_ne_nil first rest), hjoin]

theorem intercalate_splitFirst (s : Char) (sep cs : List Char) :
    (s :: sep).intercalate (splitFirst (s :: sep) cs) = cs := by
  obtain ⟨first, rest, hsplit, -, -, hjoin⟩ := splitFirst_cases s sep cs
  rw [hsplit, hjoin]

end Text

namespace Eval

/-! ## Pieces of a text -/

/-- Nothing between pieces of one character each. -/
theorem intercalate_nil_singletons (cs : List Char) :
    ([] : List Char).intercalate (cs.map fun c => [c]) = cs := by
  induction cs with
  | nil => rfl
  | cons c cs ih =>
    cases cs with
    | nil => rfl
    | cons d cs =>
      rw [List.map_cons, List.map_cons, List.intercalate_cons_cons]
      exact congrArg (c :: ·) ih

/-- The pieces with the separator between them are the text. -/
theorem intercalate_piecesOf (s sep : String) :
    sep.toList.intercalate (piecesOf s sep) = s.toList := by
  unfold piecesOf
  cases sep.toList with
  | nil => exact intercalate_nil_singletons s.toList
  | cons c cs => exact Text.intercalate_splitAll c cs s.toList

theorem intercalate_firstPiecesOf (s sep : String) :
    sep.toList.intercalate (firstPiecesOf s sep) = s.toList := by
  unfold firstPiecesOf
  cases sep.toList with
  | nil =>
    cases s.toList with
    | nil => rfl
    | cons c cs =>
      dsimp only
      rw [List.intercalate_cons_cons, List.intercalate_singleton]
      rfl
  | cons c cs => exact Text.intercalate_splitFirst c cs s.toList

/-- The strings that pieces of a text are. -/
def strings (pieces : List (List Char)) : List String := pieces.map String.ofList

theorem intercalate_strings (sep : String) (pieces : List (List Char)) :
    String.intercalate sep (strings pieces) = String.ofList (sep.toList.intercalate pieces) := by
  have hpieces : (strings pieces).map String.toList = pieces := by
    unfold strings
    rw [List.map_map]
    exact List.map_id'' (fun _ => String.toList_ofList) pieces
  rw [← String.toList_inj, String.toList_intercalate, String.toList_ofList, hpieces]

/-- What holds of pieces holds of the strings that they are. -/
theorem forall_mem_strings {P : List Char → Prop} {pieces : List (List Char)}
    (h : ∀ piece ∈ pieces, P piece) : ∀ text ∈ strings pieces, P text.toList := by
  intro text htext
  obtain ⟨piece, hpiece, rfl⟩ := List.mem_map.mp htext
  rw [String.toList_ofList]
  exact h piece hpiece

/-! ## Calls -/

/-- A text that is cut gives the array of its pieces. -/
theorem carryOut_splitWith (b : Builtin) (pieces : String → String → List (List Char))
    (s sep : String) (t : Store) :
    carryOut (splitWith b pieces (.str s) (.str sep)) t =
      madeArray t ((strings (pieces s sep)).map Value.str) := by
  have hvalues : (strings (pieces s sep)).map Value.str = (pieces s sep).map textOf := List.map_map
  rw [hvalues]
  rfl

theorem mapM_stringOf (role : Role) (b : Builtin) (parts : List String) :
    (parts.map Value.str).mapM (stringOf role b) = .ok parts := by
  induction parts with
  | nil => rfl
  | cons part parts ih =>
    rw [List.map_cons, List.mapM_cons, ih]
    rfl

/-- Strings that are joined. -/
theorem apply_join (budget id : Nat) (parts : List String) (sep : String) (t : Store) :
    apply (budget + 1) (.builtin .join) [.array id (parts.map .str), .str sep] t =
      .done (.str (String.intercalate sep parts)) t := by
  have hjoin : joinWith (.array id (parts.map .str)) (.str sep) =
      .ok (.value (.str (String.intercalate sep parts))) := by
    unfold joinWith
    dsimp only
    rw [mapM_stringOf]
    rfl
  rw [apply_builtin]
  show carryOut (joinWith (.array id (parts.map .str)) (.str sep)) t = _
  rw [hjoin]
  rfl

/-- Pieces that make up a text are joined to this text. -/
theorem apply_join_strings {pieces : List (List Char)} {s sep : String}
    (h : sep.toList.intercalate pieces = s.toList) (budget id : Nat) (t : Store) :
    apply (budget + 1) (.builtin .join) [.array id ((strings pieces).map .str), .str sep] t =
      .done (.str s) t := by
  rw [apply_join, intercalate_strings, h, String.ofList_toList]

/-- A text cut at a separator, at every occurrence or at the first one, is joined by the same separator
    to the text that it was; the separator may be empty. One that is not empty occurs in no piece of a
    text cut at every occurrence, and cutting at the first one gives at most two pieces, the first of
    them the same. -/
theorem split_joined (budget : Nat) (s sep : String) (t : Store) :
    ∃ all around : List String,
      apply (budget + 1) (.builtin .split) [.str s, .str sep] t = madeArray t (all.map .str) ∧
      apply (budget + 1) (.builtin .splitOnce) [.str s, .str sep] t =
        madeArray t (around.map .str) ∧
      (∀ id t', apply (budget + 1) (.builtin .join) [.array id (all.map .str), .str sep] t' =
        .done (.str s) t') ∧
      (∀ id t', apply (budget + 1) (.builtin .join) [.array id (around.map .str), .str sep] t' =
        .done (.str s) t') ∧
      (sep ≠ "" → (∀ piece ∈ all, ¬ sep.toList <:+: piece.toList) ∧ around.length ≤ 2 ∧
        ∃ first, all.head? = some first ∧ around.head? = some first) := by
  refine ⟨strings (piecesOf s sep), strings (firstPiecesOf s sep), ?_, ?_, ?_, ?_, fun hsep => ?_⟩
  · exact carryOut_splitWith .split piecesOf s sep t
  · exact carryOut_splitWith .splitOnce firstPiecesOf s sep t
  · exact apply_join_strings (intercalate_piecesOf s sep) budget
  · exact apply_join_strings (intercalate_firstPiecesOf s sep) budget
  · cases hchars : sep.toList with
    | nil => exact absurd (String.toList_eq_nil_iff.mp hchars) hsep
    | cons c cs =>
      have hall : piecesOf s sep = Text.splitAll c cs s.toList := by
        unfold piecesOf
        rw [hchars]
      have haround : firstPiecesOf s sep = Text.splitFirst (c :: cs) s.toList := by
        unfold firstPiecesOf
        rw [hchars]
      obtain ⟨first, rest, hsplit, hlength, hhead, -⟩ := Text.splitFirst_cases c cs s.toList
      rw [hall, haround, hsplit]
      refine ⟨forall_mem_strings (Text.not_infix_of_mem_splitAll c cs s.toList), ?_,
        String.ofList first, ?_, rfl⟩
      · unfold strings
        rw [List.length_map, List.length_cons]
        omega
      · unfold strings
        rw [List.head?_map, hhead]
        rfl

/-- Occurrences of `aa` in `aaa` do not overlap: the first one counts. -/
theorem split_joined_overlap :
    "aa" ≠ "" ∧ ∃ all around : List String,
      apply 1 (.builtin .split) [.str "aaa", .str "aa"] .empty = madeArray .empty (all.map .str) ∧
      apply 1 (.builtin .splitOnce) [.str "aaa", .str "aa"] .empty =
        madeArray .empty (around.map .str) ∧
      apply 1 (.builtin .join) [.array 0 (all.map .str), .str "aa"] .empty =
        .done (.str "aaa") .empty ∧
      apply 1 (.builtin .join) [.array 0 (around.map .str), .str "aa"] .empty =
        .done (.str "aaa") .empty ∧
      (∀ piece ∈ all, ¬ "aa".toList <:+: piece.toList) ∧ around.length ≤ 2 ∧
        ∃ first, all.head? = some first ∧ around.head? = some first := by
  have hsep : "aa" ≠ "" := by decide
  obtain ⟨all, around, hall, haround, hjoin, hjoin', hpieces⟩ := split_joined 0 "aaa" "aa" .empty
  exact ⟨hsep, all, around, hall, haround, hjoin 0 .empty, hjoin' 0 .empty, hpieces hsep⟩

example : firstPiecesOf "aaa" "aa" = [[], ['a']] ∧ piecesOf "añaña" "aña" = [[], ['ñ', 'a']] := by
  cbv

end Eval

end Scriptlet
