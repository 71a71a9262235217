import Scriptlet.Proofs.Grammar.Ending
import Scriptlet.Proofs.Text.Utf8
import Scriptlet.Proofs.Token.Drawn
import Scriptlet.Script.Basic

/-!
# `Proofs.Grammar.Streamed` — a text drawn character by character is read as the text at hand

The grammar stops at the end of the text and not before, whatever faults it finds, and it has asked for
all lexemes when it stops. So a source that gives the characters of a text is drawn as a whole, and what
was kept of it is the text.

## Contents
- `Grammar.program_taken`: what a program takes of its lexemes.
- `parseDraws_placed`: a program from the draws of a text.
- `parse_streamed`: the three ways to read a text agree.
-/

namespace Scriptlet

namespace Grammar

/-- A program takes all lexemes up to the first end of the text. -/
theorem program_taken (xs : List Lexeme) :
    ∃ p t, program (budgetFor xs.length) (State.ofLexemes xs) = .ok p t ∧
      t.rest = xs.dropWhile (fun x => x.token ≠ .eof) := by
  obtain ⟨ss, t, hread, hends⟩ := readStatements_ok false (State.ofLexemes xs)
  have heof : t.current.token = .eof := by
    cases htok : t.current.token <;> simp [htok, endsStatements] at hends ⊢
  have hleads := readStatements_total (xs.length + 1) false (State.ofLexemes xs) (Nat.lt_succ_self _)
  unfold Rule.LeadsAt at hleads
  rw [hread] at hleads
  have hst : statements (budgetFor xs.length) false (State.ofLexemes xs) = .ok ss t := by
    rw [← hread]
    exact statements_of_le (Nat.le_refl _) false
  refine ⟨⟨ss, ⟨(State.ofLexemes xs).current.start, t.current.stop⟩⟩, t, ?_,
    rest_eq_dropWhile hleads heof⟩
  unfold program
  rw [Rule.look_bind, Rule.bind_ok hst]
  rfl

end Grammar

/-- Only the end of its text is left of what a lexer gives. -/
theorem length_dropWhile_lexemes (l : Lexer) :
    (l.lexemes.dropWhile (fun x => x.token ≠ .eof)).length = 1 := by
  obtain ⟨xs, last, hsplit, hlast, hne⟩ := l.lexemes_end
  rw [hsplit, List.dropWhile_append_of_pos (by simpa using hne),
    List.dropWhile_cons_of_neg (by simp [hlast])]
  rfl

/-- The draws of a text give its program, and all of them are made. -/
theorem parseDraws_placed (cs : List Char) :
    parseDraws (placed 0 cs) =
      { toParsed := parseLexemes (Lexer.ofChars cs).lexemes, undrawn := [] } := by
  obtain ⟨hlexemes, x, last, hlast, hundrawn⟩ := readLexemes_placed cs
  have hlength : (readLexemes (placed 0 cs)).length = (Lexer.ofChars cs).lexemes.length := by
    rw [← hlexemes, List.length_map]
  obtain ⟨p, t, hprogram, hrest⟩ := Grammar.program_taken (Lexer.ofChars cs).lexemes
  have hleft : t.rest.length = 1 := by rw [hrest, length_dropWhile_lexemes]
  unfold parseDraws parseLexemes
  simp only [hlexemes, hlength, hprogram, Reply.rest, hleft]
  -- one lexeme is left in front of the grammar, and it looks two ahead
  rw [List.take_of_length_le (by omega), hlast]
  show StreamParsed.mk _ last.undrawn = _
  rw [hundrawn]

/-- Whether its positions are known by what is left of it or counted while its characters are drawn, a
    text is read as the same program with the same faults, and no character of it stays undrawn. The
    source of a program that is read from the text's bytes is the text. -/
theorem parse_streamed (path source : String) :
    parseDraws (indexed source) = { toParsed := parse source, undrawn := [] } ∧
    parseStream (source.toList.map some) = { toParsed := parse source, undrawn := [] } ∧
    Script.ofBytes path source.toUTF8.data.toList =
      if (parse source).errors.isEmpty then .ok ⟨path, source, (parse source).program⟩
      else .error (.grammar path source (parse source).errors) := by
  have hstream : parseStream (source.toList.map some) =
      { toParsed := parse source, undrawn := [] } := parseDraws_placed source.toList
  refine ⟨?_, hstream, ?_⟩
  · rw [indexed_eq]
    exact parseDraws_placed source.toList
  · have hchars : (source.toList.map Utf8.Draw.char).map Utf8.Draw.char? = source.toList.map some := by
      rw [List.map_map]
      rfl
    have hfaults : (source.toList.map Utf8.Draw.char).filterMap Utf8.Draw.fault? = [] := by
      simp [List.filterMap_map, Utf8.Draw.fault?]
    have hkept : (source.toList.map Utf8.Draw.char).filterMap Utf8.Draw.char? = source.toList := by
      rw [List.filterMap_map]
      exact List.filterMap_some
    unfold Script.ofBytes
    simp only [Utf8.draws_text, hchars, hstream, List.length_nil, Nat.sub_zero, List.take_length,
      hfaults, hkept, String.ofList_toList]
    rfl

end Scriptlet
