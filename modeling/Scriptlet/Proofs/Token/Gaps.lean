import Mathlib.Data.String.Basic
import Scriptlet.Proofs.Token.Drawn

/-!
# `Proofs.Token.Gaps` — what stands between lexemes and inside them

The blanks of a text are where its lexemes are not, but for strings, which may hold blanks, and for
blank lines, which hold nothing else. A reader that is asked for more lexemes than there are answers
with the end of the text again and again.

## Contents
- `textBetween`: the characters between two positions, `textBetween_eq`: a piece of a text.
- `isBlank_readWord`: no word but a string holds a blank.
- `BlanksApart`, `Tiled.blanksApart`: where the blanks of a text are.
- `Lexer.after`, `Reader.after`, `Reader.call`: reading call by call. `Lexer.calls_end`: the calls of a
  text.
- `reader_tiles`: the lexemes that a reader gives of a text.
-/

namespace Scriptlet

open Text (byteWidth)

/-! ## Pieces of a text -/

/-- The characters of a text between two positions. -/
def textBetween (source : String) (start stop : Nat) : List Char :=
  (String.Pos.Raw.extract source ⟨start⟩ ⟨stop⟩).toList

theorem utf8Len_eq (cs : List Char) : String.utf8Len cs = byteWidth cs := by
  induction cs with
  | nil => rfl
  | cons c cs ih => rw [String.utf8Len_cons, ih, Text.byteWidth_cons, Nat.add_comm]

/-- The characters behind some others are found by the bytes before them. -/
theorem textBetween_eq {source : String} {before middle rest : List Char} {start stop : Nat}
    (h : source.toList = before ++ (middle ++ rest)) (hstart : start = byteWidth before)
    (hstop : stop = start + byteWidth middle) : textBetween source start stop = middle := by
  have hsource : source = String.ofList (before ++ middle ++ rest) := by
    rw [List.append_assoc, ← h, String.ofList_toList]
  subst hstart hstop
  unfold textBetween
  rw [hsource, ← utf8Len_eq, ← utf8Len_eq, String.extract_of_valid, String.toList_ofList]

/-! ## Words hold no blanks -/

theorem isBlank_of_isNameChar {c : Char} (h : isNameChar c = true) : isBlank c = false :=
  not_isBlank h (by decide)

theorem isBlank_of_isDigit {c : Char} (h : c.isDigit = true) : isBlank c = false :=
  not_isBlank h (by decide)

theorem isBlank_readNumber (cs : List Char) : ∀ d ∈ (readNumber cs).text, isBlank d = false := by
  intro d hd
  unfold readNumber at hd
  split at hd
  · rcases List.mem_append.mp hd with hd | hd
    · exact isBlank_of_isDigit (Lexer.mem_takeWhile hd)
    rcases List.mem_cons.mp hd with rfl | hd
    · decide
    · exact isBlank_of_isDigit (Lexer.mem_takeWhile hd)
  · exact isBlank_of_isDigit (Lexer.mem_takeWhile hd)

/-- No word but a string holds a blank. -/
theorem isBlank_readWord {c : Char} {r : List Char} (hc : isBlank c = false)
    (hstr : ∀ value, (readWord c r).token ≠ .str value) :
    ∀ d ∈ (readWord c r).text, isBlank d = false := by
  unfold readWord at hstr ⊢
  split
  · next hquote =>
    rw [if_pos hquote] at hstr
    exact absurd rfl (hstr _)
  split
  · intro d hd
    exact isBlank_of_isNameChar (Lexer.mem_takeWhile hd)
  split
  · exact isBlank_readNumber _
  split
  · next spelling t h =>
    have hall : ∀ p ∈ Token.symbols, p.1.all (!isBlank ·) = true := by decide
    intro d hd
    have hsymbol := List.all_eq_true.mp (hall _ (List.mem_of_find?_eq_some h)) d hd
    simpa using hsymbol
  · intro d hd
    rw [List.mem_singleton.mp hd]
    exact hc

/-! ## Where the blanks are -/

/-- Only blanks stand between the position `p`, the lexemes of a list, and inside blank lines; no
    other lexeme than a string holds any. -/
def BlanksApart (source : String) : Nat → List Lexeme → Prop
  | _, [] => True
  | p, x :: xs =>
    (∀ c ∈ textBetween source p x.start, isBlank c = true) ∧
    (x.token = .blankLine → ∀ c ∈ textBetween source x.start x.stop, isBlank c = true) ∧
    (x.token ≠ .blankLine → (∀ value, x.token ≠ .str value) →
      ∀ c ∈ textBetween source x.start x.stop, isBlank c = false) ∧
    BlanksApart source x.stop xs

/-- A gap and a lexeme behind it, cut out of a text. -/
theorem blanksApart_cons {source : String} {before gap text rest : List Char} {start stop : Nat}
    {t : Token} {xs : List Lexeme} (h : source.toList = before ++ (gap ++ (text ++ rest)))
    (hgap : ∀ c ∈ gap, isBlank c = true) (hstart : start = byteWidth before + byteWidth gap)
    (hstop : stop = start + byteWidth text)
    (hblank : t = .blankLine → ∀ c ∈ text, isBlank c = true)
    (hword : t ≠ .blankLine → (∀ value, t ≠ .str value) → ∀ c ∈ text, isBlank c = false)
    (hmore : (∃ front, source.toList = front ++ rest ∧ stop = byteWidth front) →
      BlanksApart source stop xs) :
    BlanksApart source (byteWidth before) (⟨start, t, stop⟩ :: xs) := by
  have hfront : source.toList = (before ++ gap) ++ (text ++ rest) := by
    rw [h, List.append_assoc]
  have hback : source.toList = (before ++ gap ++ text) ++ rest := by
    rw [hfront, List.append_assoc (before ++ gap)]
  have hstart' : start = byteWidth (before ++ gap) := by rw [hstart, Text.byteWidth_append]
  have hstop' : stop = byteWidth (before ++ gap ++ text) := by
    rw [hstop, hstart', Text.byteWidth_append (before ++ gap)]
  have hgapText : textBetween source (byteWidth before) start = gap := textBetween_eq h rfl hstart
  have hownText : textBetween source start stop = text := textBetween_eq hfront hstart' hstop
  refine ⟨?_, ?_, ?_, hmore ⟨_, hback, hstop'⟩⟩
  · show ∀ c ∈ textBetween source (byteWidth before) start, isBlank c = true
    rwa [hgapText]
  · show t = .blankLine → ∀ c ∈ textBetween source start stop, isBlank c = true
    rwa [hownText]
  · show t ≠ .blankLine → _ → ∀ c ∈ textBetween source start stop, isBlank c = false
    rwa [hownText]

/-- Lexemes that cut what is left of a text leave the blanks between them. -/
theorem Tiled.blanksApart {source : String} {p : Nat} {cs : List Char} {xs : List Lexeme}
    (h : Tiled p cs xs) (hp : ∃ before, source.toList = before ++ cs ∧ p = byteWidth before) :
    BlanksApart source p xs := by
  induction h with
  | @last p gap hgap =>
    obtain ⟨before, hsource, rfl⟩ := hp
    have hwhole : source.toList = before ++ (gap ++ ([] ++ [])) := by simpa using hsource
    refine blanksApart_cons hwhole hgap rfl rfl ?_ ?_ ?_
    · intro h
      cases h
    · intro _ _ c hc
      cases hc
    · intro _
      trivial
  | @word p start stop gap c r xs hgap hc hstart hstop h ih =>
    obtain ⟨before, hsource, rfl⟩ := hp
    rw [← readWord_append c r] at hsource
    refine blanksApart_cons hsource hgap hstart hstop ?_ (fun _ => isBlank_readWord hc) ih
    intro hblank
    have hword := readWord_isSilent c r
    rw [hblank] at hword
    cases hword
  | blankLine hgap hblanks hne hstart hstop h ih =>
    obtain ⟨before, hsource, rfl⟩ := hp
    exact blanksApart_cons hsource hgap hstart hstop (fun _ => hblanks)
      (fun h => absurd rfl h) ih

/-- The lexemes of a text leave its blanks between them. -/
theorem tokenize_blanksApart (source : String) : BlanksApart source 0 (tokenize source) :=
  (tokenize_tiled source).blanksApart ⟨[], rfl, rfl⟩

/-! ## Reading call by call -/

/-- The place after `n` calls. -/
def Reader.after : Nat → Reader → Reader
  | 0, r => r
  | n + 1, r => after n r.next.2

/-- What call `n` gives, counted from 0. -/
def Reader.call (r : Reader) (n : Nat) : Lexeme := (r.after n).next.1

namespace Lexer

/-- The place after `n` calls. -/
def after : Nat → Lexer → Lexer
  | 0, l => l
  | n + 1, l => after n l.next.2

/-- What call `n` gives, counted from 0. -/
def call (l : Lexer) (n : Nat) : Lexeme := (l.after n).next.1

theorem after_drawn (n : Nat) (l : Lexer) : l.drawn.after n = (l.after n).drawn := by
  induction n generalizing l with
  | zero => rfl
  | succ n ih =>
    show l.drawn.next.2.after n = (l.next.2.after n).drawn
    rw [next_drawn, ih]

/-- A reader is asked as the lexer is. -/
theorem call_drawn (l : Lexer) (n : Nat) : l.drawn.call n = l.call n := by
  unfold Reader.call call
  rw [after_drawn, next_drawn]

/-- The end of the text, as a position. -/
def stop (l : Lexer) : Nat := l.offset + byteWidth l.rest

theorem stop_advance {l : Lexer} {text rest : List Char} (h : l.rest = text ++ rest) :
    (l.advance text rest).stop = l.stop := by
  show l.offset + byteWidth text + byteWidth rest = l.offset + byteWidth l.rest
  rw [h, Text.byteWidth_append, Nat.add_assoc]

theorem stop_skip (l : Lexer) (p : Char → Bool) : (l.skip p).stop = l.stop :=
  stop_advance List.takeWhile_append_dropWhile.symm

theorem stop_word (l : Lexer) : l.word.2.stop = l.stop := by
  cases h : l.rest with
  | nil => rw [word_nil h]
  | cons c r =>
    rw [word_cons h]
    exact stop_advance (h.trans (readWord_append c r).symm)

/-- The text ends where it does, whatever was read of it. -/
theorem stop_next (l : Lexer) : l.next.2.stop = l.stop := by
  unfold next
  dsimp only
  split
  · rw [stop_skip, stop_skip]
  · rw [stop_word, stop_skip, stop_skip]

/-- Behind the end of the text every call gives it again. -/
theorem call_of_nil {l : Lexer} (h : l.rest = []) (n : Nat) : l.call n = .endAt l.stop := by
  have hstay : ((l.skip isSpacing).skip isBlank) = l := by
    obtain ⟨offset, rest, begun⟩ := l
    cases h
    rfl
  have hnext : l.next = (.endAt l.offset, l) := by
    rw [next_of_blanks (by rw [hstay, h]), hstay]
  have hstop : l.stop = l.offset := by
    show l.offset + byteWidth l.rest = l.offset
    rw [h]
    rfl
  have hafter : l.after n = l := by
    induction n with
    | zero => rfl
    | succ n ih =>
      show l.next.2.after n = l
      rw [hnext, ih]
  unfold call
  rw [hafter, hnext, hstop]

/-- At the end of the text it is given, at its position. -/
theorem next_of_eof {l : Lexer} (h : l.next.1.token = .eof) : l.next.1 = .endAt l.stop := by
  rcases l.next_cases with ⟨hrest, hnext⟩ | ⟨c, r, hrest, hnext⟩ | ⟨-, -, -, hnext⟩
  · rw [hnext, offset_margin]
    show _ = Lexeme.endAt (l.offset + byteWidth l.rest)
    rw [l.rest_eq_margin, hrest, List.append_nil]
  · rw [hnext, word_cons hrest] at h
    exact absurd h (readWord_ne_eof c r)
  · rw [hnext] at h
    cases h

/-- The lexemes of a text are given call by call, no more of them than there are characters before its
    end; then there is nothing but the end. -/
theorem calls_end (l : Lexer) :
    ∃ n ≤ l.rest.length, l.lexemes = (List.range (n + 1)).map l.call ∧
      (∀ i < n, (l.call i).token ≠ .eof) ∧ ∀ i, n ≤ i → l.call i = .endAt l.stop := by
  by_cases heof : l.next.1.token = .eof
  · refine ⟨0, Nat.zero_le _, ?_, fun i hi => absurd hi (Nat.not_lt_zero i), ?_⟩
    · rw [lexemes_eq, if_pos heof]
      rfl
    · intro i _
      cases i with
      | zero => exact next_of_eof heof
      | succ i =>
        show l.next.2.call i = _
        rw [call_of_nil (rest_next_of_eof heof), stop_next]
  · have hless := length_rest_next_lt heof
    obtain ⟨n, hn, hlexemes, hbefore, hbehind⟩ := calls_end l.next.2
    refine ⟨n + 1, by omega, ?_, ?_, ?_⟩
    · rw [lexemes_eq, if_neg heof, hlexemes, List.range_succ_eq_map (n := n + 1), List.map_cons,
        List.map_map]
      rfl
    · intro i hi
      cases i with
      | zero => exact heof
      | succ i => exact hbefore i (Nat.lt_of_succ_lt_succ hi)
    · intro i hi
      cases i with
      | zero => exact absurd hi (Nat.not_succ_le_zero n)
      | succ i =>
        rw [← stop_next]
        exact hbehind i (Nat.le_of_succ_le_succ hi)
termination_by l.rest.length

end Lexer

/-- A reader of a text gives lexemes that lie behind each other between the characters of the text and
    are not empty, with nothing but blanks between them; blanks are also in strings and make up blank
    lines. There is at most one lexeme for each character before the end of the text, which is given
    where the text ends and by every call from then on. -/
theorem reader_tiles (source : String) :
    Ordered (IsBoundary source) 0 (tokenize source) ∧
    BlanksApart source 0 (tokenize source) ∧
    ∃ n ≤ source.length,
      tokenize source = (List.range (n + 1)).map (Reader.ofDraws (indexed source)).call ∧
      (∀ i < n, ((Reader.ofDraws (indexed source)).call i).token ≠ .eof) ∧
      ∀ i, n ≤ i → (Reader.ofDraws (indexed source)).call i = .endAt source.utf8ByteSize := by
  have hcall : (Reader.ofDraws (indexed source)).call = (Lexer.ofChars source.toList).call := by
    funext i
    rw [indexed_eq, Reader.ofDraws_placed]
    exact (Lexer.ofChars source.toList).call_drawn i
  have hstop : (Lexer.ofChars source.toList).stop = source.utf8ByteSize := by
    rw [utf8ByteSize_eq]
    exact Nat.zero_add _
  refine ⟨tokenize_ordered source, tokenize_blanksApart source, ?_⟩
  rw [hcall, ← hstop, ← String.length_toList]
  exact (Lexer.ofChars source.toList).calls_end

end Scriptlet
