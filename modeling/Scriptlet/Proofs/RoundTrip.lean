import Scriptlet.Proofs.Grammar.Spelled
import Scriptlet.Proofs.Grammar.Spoken

/-!
# `Proofs.RoundTrip` — the canonical text of a program is read as this program

A text is read as a tree whose names and numbers are spelled as the lexer reads them
(`parse_spelled`). The canonical text of such a tree is read as its words (`Program.tokens_layout`),
lexemes with these words are written with the tree (`Program.words_written`), and what is written is
what the grammar reads (`Written.parseLexemes_eq`). So writing a program in its canonical form loses
places and superfluous blank lines and nothing else, and a second time it changes nothing.

A margin has to consist of blanks that end no line. Other characters in it would be read as words or
as line breaks.
-/

namespace Scriptlet

variable {indent : Indent} (hi : isSpacing indent.char = true)

include hi

/-- The canonical text of a tree whose names and numbers are spelled as the lexer reads them has no
    fault, and it is read as the same tree. -/
theorem Program.parse_layout {p : Program} (h : Stmt.SpelledList p.statements) :
    (parse (p.layout indent)).errors = [] ∧ (parse (p.layout indent)).program.normal = p.normal := by
  have htokens := Program.tokens_layout hi h
  obtain ⟨xs, zs, hxs, hwords, hzs⟩ := split_append htokens
  obtain ⟨z, rfl, hz⟩ := split_singleton hzs
  obtain ⟨ss, hwritten, hnormal⟩ := Program.words_written h hwords
  obtain ⟨hstatements, herrors⟩ := hwritten.parseLexemes_eq hz
  unfold parse Program.normal
  rw [hxs, hstatements, hnormal]
  exact ⟨herrors, rfl⟩

/-- The canonical text of what was read from a source has no fault, is read as the same program up to
    places and superfluous blank lines, and is its own canonical text. Where the source has faults,
    the program is what was read around them. -/
theorem parse_layout_parse (source : String) :
    let text := (parse source).program.layout indent
    (parse text).errors = [] ∧ (parse text).program.normal = (parse source).program.normal ∧
      (parse text).program.layout indent = text := by
  intro text
  obtain ⟨herrors, hnormal⟩ := Program.parse_layout hi (parse_spelled source)
  refine ⟨herrors, hnormal, ?_⟩
  calc (parse text).program.layout indent
      = (parse text).program.normal.layout indent := (Program.layout_normal _).symm
    _ = (parse source).program.normal.layout indent := by rw [hnormal]
    _ = text := Program.layout_normal _

omit hi

/-- Tabs make such margins. -/
theorem parse_layout_parse_tab :
    let source := "let f = fn(a) \x7b return \x7b1: (a ** 2) ** 3\x7d \x7d\n\n\nf(.5)[-1]"
    let text := (parse source).program.layout ⟨'\t', 1⟩
    isSpacing '\t' = true ∧ (parse text).errors = [] ∧
      (parse text).program.normal = (parse source).program.normal ∧
      (parse text).program.layout ⟨'\t', 1⟩ = text := by
  intro source text
  have htab : isSpacing '\t' = true := by decide
  exact ⟨htab, parse_layout_parse htab source⟩

end Scriptlet
