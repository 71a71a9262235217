import Scriptlet.Text.Quoted
import Scriptlet.Token.Lexer

/-!
# `Proofs.Token.Spelling` — which texts are read as which tokens

What is read does not depend on the place where it stands. Once a word was read, the tokens of what
is left are a function of its characters alone, and every way to write a token has an equation for
this function. The equations leave open what stands behind the token, as far as it is not part of it.

## Contents
- `Lexer.seen`: a step of the lexer without its places. `tokensOf`: the tokens of a text behind a word.
- `tokensOf_spacing`, `tokensOf_newline`, `tokensOf_blankLine`, `tokensOf_end`: blanks.
- `IsName`, `IsInt`, `IsFloat`: how names and numbers are spelled.
- `tokensOf_name`, `tokensOf_int`, `tokensOf_quote`, `tokensOf_operator` and the like: the words.
- `tokenize_spelled`: the names and numbers that the lexer gives are spelled in these ways.
-/

namespace Scriptlet

/-! ## Steps without places -/

namespace Lexer

variable {l l' : Lexer}

/-- What a step of the lexer reads, and where it leaves the text, without any position. -/
def seen (step : Lexeme × Lexer) : Token × List Char × Bool :=
  (step.1.token, step.2.rest, step.2.begun)

/-- The same text but for blanks that end no line. -/
def Alike (l l' : Lexer) : Prop :=
  l.rest.dropWhile isSpacing = l'.rest.dropWhile isSpacing ∧ l.begun = l'.begun

/-- The word at the end of a text is the end, for ever. -/
theorem word_nil (h : l.rest = []) : l.word = (.endAt l.offset, l) := by
  unfold word
  rw [h]

theorem seen_word_cons {c : Char} {r : List Char} (h : l.rest = c :: r) :
    seen l.word = ((readWord c r).token, (readWord c r).rest, true) := by
  unfold word
  rw [h]
  rfl

theorem seen_word (h : l.rest = l'.rest) (hb : l.begun = l'.begun) :
    seen l.word = seen l'.word := by
  cases hr : l'.rest with
  | nil =>
    rw [word_nil hr, word_nil (h.trans hr)]
    show (Token.eof, l.rest, l.begun) = (Token.eof, l'.rest, l'.begun)
    rw [h, hb]
  | cons c r => rw [seen_word_cons hr, seen_word_cons (h.trans hr)]

/-- Fewer than two line breaks are passed in silence. -/
theorem next_eq_word (h : ((l.rest.dropWhile isSpacing).takeWhile isBlank).count '\n' < 2) :
    l.next = ((l.skip isSpacing).skip isBlank).word := by
  have hfew : ¬ 2 ≤ ((l.skip isSpacing).rest.takeWhile isBlank).count '\n' := Nat.not_le.mpr h
  unfold next
  rw [if_neg]
  simp [hfew]

/-- Two or more line breaks between two words make a word. -/
theorem next_eq_blankLine (h : 2 ≤ ((l.rest.dropWhile isSpacing).takeWhile isBlank).count '\n')
    (hb : l.begun = true) (hr : (l.rest.dropWhile isSpacing).dropWhile isBlank ≠ []) :
    seen l.next = (.blankLine, (l.rest.dropWhile isSpacing).dropWhile isBlank, true) := by
  have hmany : 2 ≤ ((l.skip isSpacing).rest.takeWhile isBlank).count '\n' := h
  have hrest : ((l.skip isSpacing).skip isBlank).rest ≠ [] := hr
  have hbegun : (l.skip isSpacing).begun = true := hb
  unfold next
  rw [if_pos]
  · show (Token.blankLine, _, l.begun) = _
    rw [hb]
    rfl
  · simp [hmany, hrest, hbegun]

/-- Where the texts are alike, the same is read. -/
theorem seen_next (h : l.Alike l') : seen l.next = seen l'.next := by
  obtain ⟨hrest, hbegun⟩ := h
  have hafter : ((l.skip isSpacing).skip isBlank).rest = ((l'.skip isSpacing).skip isBlank).rest :=
    congrArg (List.dropWhile isBlank) hrest
  have hcount : ((l.skip isSpacing).rest.takeWhile isBlank).count '\n' =
      ((l'.skip isSpacing).rest.takeWhile isBlank).count '\n' :=
    congrArg (fun cs => (cs.takeWhile isBlank).count '\n') hrest
  have hbegun' : (l.skip isSpacing).begun = (l'.skip isSpacing).begun := hbegun
  unfold next
  dsimp only
  rw [hcount, hafter, hbegun']
  split
  · show (Token.blankLine, _, l.begun) = (Token.blankLine, _, l'.begun)
    rw [hafter, hbegun]
  · exact seen_word hafter hbegun

theorem lexemes_eq (l : Lexer) :
    l.lexemes = if l.next.1.token = .eof then [l.next.1] else l.next.1 :: l.next.2.lexemes := by
  rw [lexemes]

/-- The end of the text is the last lexeme and no other. -/
theorem lexemes_end (l : Lexer) :
    ∃ xs last, l.lexemes = xs ++ [last] ∧ last.token = .eof ∧ ∀ x ∈ xs, x.token ≠ .eof := by
  rw [lexemes_eq]
  by_cases heof : l.next.1.token = .eof
  · rw [if_pos heof]
    exact ⟨[], l.next.1, rfl, heof, by simp⟩
  · have hless := length_rest_next_lt heof
    rw [if_neg heof]
    obtain ⟨xs, last, hxs, hlast, hne⟩ := lexemes_end l.next.2
    exact ⟨l.next.1 :: xs, last, congrArg (l.next.1 :: ·) hxs, hlast,
      List.forall_mem_cons.mpr ⟨heof, hne⟩⟩
termination_by l.rest.length

/-- Steps that read the same have the same tokens behind them. -/
theorem tokens_of_seen {l l' : Lexer} (h : seen l.next = seen l'.next) :
    l.lexemes.map Lexeme.token = l'.lexemes.map Lexeme.token := by
  have htoken : l.next.1.token = l'.next.1.token := congrArg Prod.fst h
  have hrest : l.next.2.rest = l'.next.2.rest := congrArg (·.2.1) h
  have hbegun : l.next.2.begun = l'.next.2.begun := congrArg (·.2.2) h
  -- induction on the text that is left, which every word but the end makes shorter
  rw [lexemes_eq l, lexemes_eq l']
  by_cases heof : l.next.1.token = .eof
  · have heof' : l'.next.1.token = .eof := htoken.symm.trans heof
    rw [if_pos heof, if_pos heof']
    exact congrArg (fun t => [t]) htoken
  · have heof' : ¬ l'.next.1.token = .eof := fun h => heof (htoken.trans h)
    have hless := length_rest_next_lt heof
    rw [if_neg heof, if_neg heof', List.map_cons, List.map_cons, htoken,
      tokens_of_seen (seen_next ⟨congrArg (List.dropWhile isSpacing) hrest, hbegun⟩)]
termination_by l.rest.length

end Lexer

/-- The tokens of a text that stands behind a word. -/
def tokensOf (cs : List Char) : List Token := (Lexer.mk 0 cs true).lexemes.map Lexeme.token

theorem Lexer.tokens_eq {l : Lexer} (h : l.begun = true) :
    l.lexemes.map Lexeme.token = tokensOf l.rest :=
  tokens_of_seen (seen_next ⟨rfl, h⟩)

/-- The tokens of a text whose first step is known. -/
theorem Lexer.tokens_cons {l : Lexer} {t : Token} {r : List Char}
    (h : seen l.next = (t, r, true)) (ht : t ≠ .eof) :
    l.lexemes.map Lexeme.token = t :: tokensOf r := by
  have htoken : l.next.1.token = t := congrArg Prod.fst h
  have hrest : l.next.2.rest = r := congrArg (·.2.1) h
  have hbegun : l.next.2.begun = true := congrArg (·.2.2) h
  rw [lexemes_eq, if_neg (by rw [htoken]; exact ht), List.map_cons, htoken, tokens_eq hbegun, hrest]

/-! ## Characters -/

/-- Lists with a separator between them: the first one, and the separator before each of the others. -/
theorem intercalate_cons {α : Type} (separator l : List α) (ls : List (List α)) :
    separator.intercalate (l :: ls) = l ++ ls.flatMap fun m => separator ++ m := by
  induction ls generalizing l with
  | nil => rw [List.intercalate_singleton, List.flatMap_nil, List.append_nil]
  | cons m ls ih =>
    rw [List.intercalate_cons_cons, ih, List.flatMap_cons, List.append_assoc, List.append_assoc]

/-- Characters of a class up to one that is not in it. -/
theorem span_append {p : Char → Bool} {w r : List Char} (hw : ∀ c ∈ w, p c = true)
    (hr : ∀ c ∈ r.head?, p c = false) :
    (w ++ r).takeWhile p = w ∧ (w ++ r).dropWhile p = r := by
  rw [List.takeWhile_append_of_pos hw, List.dropWhile_append_of_pos hw]
  cases r with
  | nil => exact ⟨List.append_nil w, rfl⟩
  | cons c r =>
    have hc : ¬ p c = true := by simp [hr c rfl]
    rw [List.takeWhile_cons, List.dropWhile_cons, if_neg hc, if_neg hc, List.append_nil]
    exact ⟨rfl, rfl⟩

theorem eq_of_isBlank {c : Char} (h : isBlank c = true) :
    c = ' ' ∨ c = '\t' ∨ c = '\r' ∨ c = '\n' := by
  simpa [isBlank, isSpacing, or_assoc] using h

/-- A blank is in no class that holds none. -/
theorem eq_false_of_isBlank {p : Char → Bool} {c : Char} (h : isBlank c = true)
    (hp : p ' ' = false ∧ p '\t' = false ∧ p '\r' = false ∧ p '\n' = false) : p c = false := by
  obtain ⟨h1, h2, h3, h4⟩ := hp
  rcases eq_of_isBlank h with rfl | rfl | rfl | rfl
  · exact h1
  · exact h2
  · exact h3
  · exact h4

/-- A character of a class that holds no blank is none. -/
theorem not_isBlank {p : Char → Bool} {c : Char} (h : p c = true)
    (hp : p ' ' = false ∧ p '\t' = false ∧ p '\r' = false ∧ p '\n' = false) :
    isBlank c = false := by
  rw [Bool.eq_false_iff]
  intro hblank
  rw [eq_false_of_isBlank hblank hp] at h
  cases h

/-- A digit is no part of a name. -/
theorem not_isNameChar {c : Char} (h : c.isDigit = true) : isNameChar c = false := by
  rw [Bool.eq_false_iff]
  intro hname
  have hdigit : 48 ≤ c.val.toNat ∧ c.val.toNat ≤ 57 := by
    simpa [Char.isDigit, UInt32.le_iff_toNat_le] using h
  have hclass : (decide (c.val ≥ 'A'.val ∧ c.val ≤ 'Z'.val) ||
      (decide (c.val ≥ 'a'.val) && decide (c.val ≤ 'z'.val)) || decide (c = '_')) = true := hname
  simp only [Bool.or_eq_true, Bool.and_eq_true, decide_eq_true_eq, ge_iff_le,
    UInt32.le_iff_toNat_le] at hclass
  rcases hclass with (⟨hlow, -⟩ | ⟨hlow, -⟩) | rfl
  · exact absurd (Nat.le_trans hlow hdigit.2) (by decide)
  · exact absurd (Nat.le_trans hlow hdigit.2) (by decide)
  · exact absurd h (by decide)

/-! ## Blanks -/

theorem isBlank_head {c : Char} (hc : isBlank c = false) (r : List Char) :
    ∀ d ∈ (c :: r).head?, isBlank d = false := by
  intro d hd
  cases hd
  exact hc

theorem not_isSpacing {c : Char} (hc : isBlank c = false) : isSpacing c = false := by
  unfold isBlank at hc
  exact (Bool.or_eq_false_iff.mp hc).1

/-- No blank is skipped at a word. -/
theorem dropWhile_isSpacing {c : Char} (hc : isBlank c = false) (r : List Char) :
    (c :: r).dropWhile isSpacing = c :: r := by
  rw [List.dropWhile_cons, if_neg (by simp [not_isSpacing hc])]

/-- At a word nothing but the word is read. -/
theorem Lexer.seen_next_cons {l : Lexer} {c : Char} {r : List Char} (hc : isBlank c = false)
    (h : l.rest = c :: r) : seen l.next = ((readWord c r).token, (readWord c r).rest, true) := by
  have hspan : ([] ++ c :: r).takeWhile isBlank = [] ∧ ([] ++ c :: r).dropWhile isBlank = c :: r :=
    span_append (fun _ hd => absurd hd List.not_mem_nil) (isBlank_head hc r)
  rw [List.nil_append] at hspan
  rw [next_eq_word]
  · refine seen_word_cons ?_
    show (l.rest.dropWhile isSpacing).dropWhile isBlank = c :: r
    rw [h, dropWhile_isSpacing hc, hspan.2]
  · rw [h, dropWhile_isSpacing hc, hspan.1]
    decide

/-- Blanks that end no line do not count. -/
theorem tokensOf_spacing {c : Char} (hc : isSpacing c = true) (r : List Char) :
    tokensOf (c :: r) = tokensOf r := by
  refine Lexer.tokens_of_seen (Lexer.seen_next ⟨?_, rfl⟩)
  show (c :: r).dropWhile isSpacing = r.dropWhile isSpacing
  rw [List.dropWhile_cons, if_pos hc]

/-- A margin holds no line break. -/
theorem count_margin {m : List Char} (hm : ∀ d ∈ m, isSpacing d = true) : m.count '\n' = 0 := by
  rw [List.count_eq_zero]
  intro hmem
  exact absurd (hm '\n' hmem) (by decide)

theorem isBlank_of_margin {m : List Char} (hm : ∀ d ∈ m, isSpacing d = true) :
    ∀ d ∈ '\n' :: m, isBlank d = true := by
  intro d hd
  rcases List.mem_cons.mp hd with rfl | hd
  · rfl
  · unfold isBlank
    rw [hm d hd, Bool.true_or]

section Margin

variable {m : List Char} (hm : ∀ d ∈ m, isSpacing d = true) {c : Char} (hc : isBlank c = false)
  (r : List Char)

include hm hc

/-- A single line break is no word. -/
theorem tokensOf_newline : tokensOf ('\n' :: (m ++ c :: r)) = tokensOf (c :: r) := by
  have hspan := span_append (isBlank_of_margin hm) (isBlank_head hc r)
  refine Lexer.tokens_of_seen (Eq.trans ?_ (Lexer.seen_next_cons hc rfl).symm)
  rw [Lexer.next_eq_word]
  · refine Lexer.seen_word_cons ?_
    show (('\n' :: m) ++ c :: r).dropWhile isBlank = c :: r
    rw [hspan.2]
  · show ((('\n' :: m) ++ c :: r).takeWhile isBlank).count '\n' < 2
    rw [hspan.1, List.count_cons_self, count_margin hm]
    decide

/-- Two line breaks between two words are a blank line. -/
theorem tokensOf_blankLine :
    tokensOf ('\n' :: '\n' :: (m ++ c :: r)) = .blankLine :: tokensOf (c :: r) := by
  have hb : ∀ d ∈ '\n' :: '\n' :: m, isBlank d = true := by
    intro d hd
    rcases List.mem_cons.mp hd with rfl | hd
    · rfl
    · exact isBlank_of_margin hm d hd
  have hspan := span_append hb (isBlank_head hc r)
  refine Lexer.tokens_cons (Lexer.next_eq_blankLine ?_ rfl ?_ |>.trans ?_) (by simp)
  · show 2 ≤ ((('\n' :: '\n' :: m) ++ c :: r).takeWhile isBlank).count '\n'
    rw [hspan.1, List.count_cons_self, List.count_cons_self]
    omega
  · show (('\n' :: '\n' :: m) ++ c :: r).dropWhile isBlank ≠ []
    rw [hspan.2]
    simp
  · show (Token.blankLine, (('\n' :: '\n' :: m) ++ c :: r).dropWhile isBlank, true) = _
    rw [hspan.2]

end Margin

theorem tokensOf_nil : tokensOf [] = [.eof] := by
  unfold tokensOf
  rw [Lexer.lexemes_eq]
  rfl

/-- The last line break is no word. -/
theorem tokensOf_end : tokensOf ['\n'] = [.eof] := by
  unfold tokensOf
  rw [Lexer.lexemes_eq, Lexer.next_eq_word (by decide), Lexer.word_nil rfl]
  rfl

/-! ## Words -/

/-- A text that starts with a word is read as it is behind one. -/
theorem tokens_start {c : Char} (hc : isBlank c = false) (r : List Char) :
    (Lexer.ofChars (c :: r)).lexemes.map Lexeme.token = tokensOf (c :: r) :=
  Lexer.tokens_of_seen ((Lexer.seen_next_cons hc rfl).trans (Lexer.seen_next_cons hc rfl).symm)

theorem tokensOf_word {c : Char} {r text rest : List Char} {t : Token}
    (hw : readWord c r = ⟨t, text, rest⟩) (hc : isBlank c = false) (ht : t ≠ .eof) :
    tokensOf (c :: r) = t :: tokensOf rest := by
  refine Lexer.tokens_cons ?_ ht
  rw [Lexer.seen_next_cons hc rfl, hw]

/-- What stands behind a name or a number is no part of it. -/
def Apart (r : List Char) : Prop :=
  ∀ c ∈ r.head?, isNameChar c = false ∧ c.isDigit = false ∧ c ≠ '.'

theorem apart_cons {c : Char} (r : List Char)
    (hc : isNameChar c = false ∧ c.isDigit = false ∧ c ≠ '.') : Apart (c :: r) := by
  intro d hd
  cases hd
  exact hc

/-! ### Names and keywords -/

/-- The spelling of a name: letters and underscores that make no keyword. -/
structure IsName (name : String) : Prop where
  ne_nil : name.toList ≠ []
  chars : ∀ c ∈ name.toList, isNameChar c = true
  free : Token.keyword? name = none

theorem readWord_name {c : Char} {w r : List Char} (hw : ∀ d ∈ c :: w, isNameChar d = true)
    (hr : Apart r) :
    readWord c (w ++ r) =
      ⟨(Token.keyword? (String.ofList (c :: w))).getD (.ident (String.ofList (c :: w))), c :: w,
        r⟩ := by
  have hc : isNameChar c = true := hw c List.mem_cons_self
  have hquote : c ≠ '"' := by
    rintro rfl
    exact absurd hc (by decide)
  have hspan := span_append hw fun d hd => (hr d hd).1
  rw [List.cons_append] at hspan
  unfold readWord
  rw [if_neg hquote, if_pos hc]
  unfold readName
  rw [hspan.1, hspan.2]

/-- A word of letters and underscores is a keyword or a name. -/
theorem tokensOf_letters {word : String} {t : Token} (hne : word.toList ≠ [])
    (hw : ∀ c ∈ word.toList, isNameChar c = true)
    (ht : (Token.keyword? word).getD (.ident word) = t) (heof : t ≠ .eof) {r : List Char}
    (hr : Apart r) : tokensOf (word.toList ++ r) = t :: tokensOf r := by
  obtain ⟨c, w, hcw⟩ := List.exists_cons_of_ne_nil hne
  have hword : String.ofList (c :: w) = word := by rw [← hcw, String.ofList_toList]
  rw [hcw] at hw ⊢
  have hread := readWord_name hw hr
  rw [hword, ht] at hread
  exact tokensOf_word hread (not_isBlank (hw c List.mem_cons_self) (by decide)) heof

theorem tokensOf_name {name : String} (h : IsName name) {r : List Char} (hr : Apart r) :
    tokensOf (name.toList ++ r) = .ident name :: tokensOf r := by
  refine tokensOf_letters h.ne_nil h.chars ?_ (by simp) hr
  rw [h.free]
  rfl

theorem tokensOf_keyword {word : String} {t : Token} (h : (word, t) ∈ Token.keywords) {r : List Char}
    (hr : Apart r) : tokensOf (word.toList ++ r) = t :: tokensOf r := by
  -- both facts are checked keyword by keyword
  have hletters : ∀ p ∈ Token.keywords, p.1.toList ≠ [] ∧ p.1.toList.all isNameChar = true := by
    decide
  have hkeys : ∀ p ∈ Token.keywords, Token.keyword? p.1 = some p.2 ∧ p.2 ≠ .eof := by decide
  obtain ⟨hne, hchars⟩ := hletters _ h
  obtain ⟨hkey, heof⟩ := hkeys _ h
  refine tokensOf_letters hne (List.all_eq_true.mp hchars) ?_ heof hr
  rw [hkey]
  rfl

/-! ### Numbers -/

/-- The spelling of an integer: digits alone. -/
structure IsInt (text : String) : Prop where
  ne_nil : text.toList ≠ []
  digits : ∀ c ∈ text.toList, c.isDigit = true

/-- The spelling of a float: a point with a digit before it or behind it, and nothing but digits. -/
structure IsFloat (text : String) (whole places : List Char) : Prop where
  eq : text.toList = whole ++ '.' :: places
  digits : ∀ c ∈ whole ++ places, c.isDigit = true
  ne_nil : whole ++ places ≠ []

/-- A number starts with a digit or with a point. -/
theorem startsNumber_head {c : Char} {r : List Char} (h : startsNumber (c :: r) = true) :
    c.isDigit = true ∨ c = '.' := by
  unfold startsNumber at h
  split at h
  · next heq =>
    cases heq
    exact Or.inr rfl
  · next heq =>
    cases heq
    exact Or.inl h
  · next heq => cases heq

theorem startsNumber_of_isDigit {c : Char} (h : c.isDigit = true) (r : List Char) :
    startsNumber (c :: r) = true := by
  unfold startsNumber
  split
  · next heq =>
    rw [(List.cons.inj heq).1] at h
    exact absurd h (by decide)
  · next heq =>
    rw [← (List.cons.inj heq).1]
    exact h
  · next heq => cases heq

theorem readWord_number {c : Char} {r : List Char} (h : startsNumber (c :: r) = true) :
    readWord c r = readNumber (c :: r) ∧ isBlank c = false := by
  have hclass : c ≠ '"' ∧ isNameChar c = false ∧ isBlank c = false := by
    rcases startsNumber_head h with hc | rfl
    · refine ⟨?_, not_isNameChar hc, not_isBlank hc (by decide)⟩
      rintro rfl
      exact absurd hc (by decide)
    · decide
  refine ⟨?_, hclass.2.2⟩
  unfold readWord
  rw [if_neg hclass.1, if_neg (by simp [hclass.2.1]), if_pos h]

/-- Digits up to something else than a digit or a point. -/
theorem readNumber_digits {whole r : List Char} (hwhole : ∀ c ∈ whole, c.isDigit = true)
    (hr : ∀ c ∈ r.head?, c.isDigit = false ∧ c ≠ '.') :
    readNumber (whole ++ r) = ⟨.int (String.ofList whole), whole, r⟩ := by
  have hspan := span_append hwhole fun d hd => (hr d hd).1
  unfold readNumber
  rw [hspan.1, hspan.2]
  dsimp only
  split
  · exact absurd rfl (hr '.' rfl).2
  · rfl

/-- Digits with a point between them up to something else than a digit. -/
theorem readNumber_point {whole places r : List Char} (hwhole : ∀ c ∈ whole, c.isDigit = true)
    (hplaces : ∀ c ∈ places, c.isDigit = true) (hr : ∀ c ∈ r.head?, c.isDigit = false) :
    readNumber (whole ++ '.' :: (places ++ r)) =
      ⟨.float (String.ofList (whole ++ '.' :: places)), whole ++ '.' :: places, r⟩ := by
  have hpoint : ∀ c ∈ ('.' :: (places ++ r)).head?, c.isDigit = false := by
    intro c hc
    cases hc
    rfl
  have hspan := span_append hwhole hpoint
  have hspan' := span_append hplaces hr
  unfold readNumber
  rw [hspan.1, hspan.2]
  show Reading.mk (.float (String.ofList (whole ++ '.' :: (places ++ r).takeWhile Char.isDigit)))
    (whole ++ '.' :: (places ++ r).takeWhile Char.isDigit) ((places ++ r).dropWhile Char.isDigit) = _
  rw [hspan'.1, hspan'.2]

theorem tokensOf_int {text : String} (h : IsInt text) {r : List Char} (hr : Apart r) :
    tokensOf (text.toList ++ r) = .int text :: tokensOf r := by
  obtain ⟨c, w, hcw⟩ := List.exists_cons_of_ne_nil h.ne_nil
  -- no point stands behind the digits, which would make them a float
  have hread := readNumber_digits h.digits fun d hd => (hr d hd).2
  rw [String.ofList_toList] at hread
  have hstart : startsNumber (c :: (w ++ r)) = true :=
    startsNumber_of_isDigit (h.digits c (by rw [hcw]; exact List.mem_cons_self)) (w ++ r)
  rw [hcw] at hread ⊢
  exact tokensOf_word ((readWord_number hstart).1.trans hread) (readWord_number hstart).2 (by simp)

theorem tokensOf_float {text : String} {whole places : List Char} (h : IsFloat text whole places)
    {r : List Char} (hr : Apart r) : tokensOf (text.toList ++ r) = .float text :: tokensOf r := by
  have hread := readNumber_point (fun c hc => h.digits c (List.mem_append_left places hc))
    (fun c hc => h.digits c (List.mem_append_right whole hc)) fun d hd => (hr d hd).2.1
  rw [← h.eq, String.ofList_toList, h.eq] at hread
  have htext : text.toList ++ r = whole ++ '.' :: (places ++ r) := by
    rw [h.eq, List.append_assoc]
    rfl
  rw [htext]
  cases whole with
  | cons c whole =>
    have hstart : startsNumber (c :: (whole ++ '.' :: (places ++ r))) = true :=
      startsNumber_of_isDigit (h.digits c List.mem_cons_self) _
    exact tokensOf_word ((readWord_number hstart).1.trans hread) (readWord_number hstart).2 (by simp)
  | nil =>
    -- a point alone starts no number, so there is a digit behind it
    obtain ⟨d, places', rfl⟩ := List.exists_cons_of_ne_nil h.ne_nil
    have hstart : startsNumber ('.' :: (d :: places' ++ r)) = true := h.digits d List.mem_cons_self
    exact tokensOf_word ((readWord_number hstart).1.trans hread) (readWord_number hstart).2 (by simp)

/-! ### Strings -/

/-- A character that is not written with a backslash is read as it is. -/
theorem readString_plain {c : Char} (hquote : c ≠ '"') (hslash : c ≠ '\\') (r : List Char) :
    readString (c :: r) =
      ⟨c :: (readString r).value, c :: (readString r).text, (readString r).rest⟩ := by
  rw [readString]
  · exact hquote
  · exact fun hc _ => hslash hc
  · exact fun _ _ hc _ => hslash hc

/-- A backslash stands at the end of the text or in front of another character. -/
theorem ne_backslash {c : Char} {r : List Char} (hend : c = '\\' → r = [] → False)
    (hescape : ∀ d s, c = '\\' → r = d :: s → False) : c ≠ '\\' := by
  intro hc
  cases r with
  | nil => exact hend hc rfl
  | cons d s => exact hescape d s hc rfl

/-- Reading a quoted string gives its value back, up to the closing quote. -/
theorem readString_quoted (cs r : List Char) :
    readString (cs.flatMap Text.quotedChar ++ '"' :: r) =
      ⟨cs, cs.flatMap Text.quotedChar ++ ['"'], r⟩ := by
  induction cs with
  | nil => rw [List.flatMap_nil, List.nil_append, List.nil_append, readString]
  | cons c cs ih =>
    rw [List.flatMap_cons, List.append_assoc]
    -- four characters are written with a backslash, all others stand for themselves
    by_cases hslash : c = '\\'
    · subst hslash
      show readString ('\\' :: '\\' :: (cs.flatMap Text.quotedChar ++ '"' :: r)) = _
      rw [readString, ih]
      rfl
    by_cases hquote : c = '"'
    · subst hquote
      show readString ('\\' :: '"' :: (cs.flatMap Text.quotedChar ++ '"' :: r)) = _
      rw [readString, ih]
      rfl
    by_cases hline : c = '\n'
    · subst hline
      show readString ('\\' :: 'n' :: (cs.flatMap Text.quotedChar ++ '"' :: r)) = _
      rw [readString, ih]
      rfl
    by_cases htab : c = '\t'
    · subst htab
      show readString ('\\' :: 't' :: (cs.flatMap Text.quotedChar ++ '"' :: r)) = _
      rw [readString, ih]
      rfl
    · have hchar : Text.quotedChar c = [c] := by
        unfold Text.quotedChar
        split
        · exact absurd rfl hslash
        · exact absurd rfl hquote
        · exact absurd rfl hline
        · exact absurd rfl htab
        · rfl
      rw [hchar]
      show readString (c :: (cs.flatMap Text.quotedChar ++ '"' :: r)) = _
      rw [readString_plain hquote hslash, ih]
      rfl

/-- A quoted string is a word whatever stands behind it. -/
theorem readWord_quote (value : String) (r : List Char) :
    readWord '"' (value.toList.flatMap Text.quotedChar ++ '"' :: r) =
      ⟨.str value, Text.quotedChars value.toList, r⟩ := by
  unfold readWord
  rw [if_pos rfl, readString_quoted]
  show Reading.mk (.str (String.ofList value.toList)) _ _ = _
  rw [String.ofList_toList]
  rfl

theorem quotedChars_append (cs r : List Char) :
    Text.quotedChars cs ++ r = '"' :: (cs.flatMap Text.quotedChar ++ '"' :: r) := by
  unfold Text.quotedChars
  rw [List.cons_append, List.append_assoc]
  rfl

theorem tokensOf_quote (value : String) (r : List Char) :
    tokensOf ((Text.quote value).toList ++ r) = .str value :: tokensOf r := by
  rw [Text.toList_quote, quotedChars_append]
  exact tokensOf_word (readWord_quote value r) rfl (by simp)

/-! ### Operators and punctuation -/

/-- The characters that are a word whatever stands behind them. -/
def mark? : Char → Option Token
  | '(' => some .leftParen
  | ')' => some .rightParen
  | '[' => some .leftBracket
  | ']' => some .rightBracket
  | '\x7b' => some .leftBrace
  | '\x7d' => some .rightBrace
  | ',' => some .comma
  | ':' => some .colon
  | ';' => some .semicolon
  | '-' => some (.operator .sub)
  | _ => none

theorem tokensOf_mark (c : Char) {t : Token} (h : mark? c = some t) (r : List Char) :
    tokensOf (c :: r) = t :: tokensOf r := by
  have hword : readWord c r = ⟨t, [c], r⟩ ∧ isBlank c = false ∧ t ≠ .eof := by
    unfold mark? at h
    split at h <;> cases h <;> exact ⟨rfl, rfl, by simp⟩
  exact tokensOf_word hword.1 hword.2.1 hword.2.2

/-- An operator in front of a blank. -/
theorem tokensOf_operator (op : BinaryOp) (r : List Char) :
    tokensOf (op.text.toList ++ ' ' :: r) = .operator op :: tokensOf (' ' :: r) := by
  have hword : ∃ c cs, op.text.toList = c :: cs ∧ isBlank c = false ∧
      readWord c (cs ++ ' ' :: r) = ⟨.operator op, c :: cs, ' ' :: r⟩ := by
    cases op <;> exact ⟨_, _, rfl, rfl, rfl⟩
  obtain ⟨c, cs, htext, hc, hread⟩ := hword
  rw [htext, List.cons_append, tokensOf_word hread hc (by simp)]

/-- The token of an operator before its operand. -/
def UnaryOp.token : UnaryOp → Token
  | .neg => .operator .sub
  | .not => .bang

/-- An operator before its operand, which does not start with an equals sign. -/
theorem tokensOf_unaryOp (op : UnaryOp) {c : Char} (hc : c ≠ '=') (r : List Char) :
    tokensOf (op.text.toList ++ c :: r) = op.token :: tokensOf (c :: r) := by
  cases op with
  | neg => exact tokensOf_mark '-' rfl (c :: r)
  | not =>
    have hsymbol : Token.symbol? ('!' :: c :: r) = some (['!'], .bang) := by
      have hnot : (['!', '='] : List Char).isPrefixOf ('!' :: c :: r) = false := by
        simp [List.isPrefixOf, Ne.symm hc]
      unfold Token.symbol? Token.symbols
      rw [List.find?_cons_of_neg (by exact Bool.false_ne_true),
        List.find?_cons_of_neg (by simp [hnot])]
      rfl
    have hword : readWord '!' (c :: r) = ⟨.bang, ['!'], c :: r⟩ := by
      have hnumber : startsNumber ('!' :: c :: r) = false := rfl
      unfold readWord
      rw [if_neg (by decide), if_neg (by decide), if_neg (by simp [hnumber]), hsymbol]
      rfl
    exact tokensOf_word hword rfl (by simp [UnaryOp.token])

/-! ## What the lexer gives -/

/-- A name or a number is spelled as the lexer reads it. -/
def Token.Spelled : Token → Prop
  | .ident name => IsName name
  | .int text => IsInt text
  | .float text => ∃ whole places, IsFloat text whole places
  | _ => True

theorem readName_spelled {c : Char} {r : List Char} (hc : isNameChar c = true) :
    (readName (c :: r)).token.Spelled := by
  unfold readName
  dsimp only
  cases hkey : Token.keyword? (String.ofList ((c :: r).takeWhile isNameChar)) with
  | none =>
    refine ⟨?_, fun d hd => ?_, hkey⟩
    · rw [String.toList_ofList, List.takeWhile_cons, if_pos hc]
      simp
    · rw [String.toList_ofList] at hd
      exact (List.all_eq_true.mp List.all_takeWhile) d hd
  | some t =>
    obtain ⟨before, after, hsplit, -⟩ := List.lookup_eq_some_iff.mp hkey
    have hmem : (String.ofList ((c :: r).takeWhile isNameChar), t) ∈ Token.keywords := by
      rw [hsplit]
      exact List.mem_append_right before List.mem_cons_self
    have hall : ∀ p ∈ Token.keywords, p.2.Spelled := by simp [Token.keywords, Token.Spelled]
    exact hall _ hmem

theorem readNumber_spelled {c : Char} {r : List Char} (h : startsNumber (c :: r) = true) :
    (readNumber (c :: r)).token.Spelled := by
  have hdigits : ∀ cs : List Char, ∀ d ∈ cs.takeWhile Char.isDigit, d.isDigit = true :=
    fun cs d hd => (List.all_eq_true.mp List.all_takeWhile) d hd
  unfold readNumber
  dsimp only
  split
  · next places hpoint =>
    refine ⟨(c :: r).takeWhile Char.isDigit, places.takeWhile Char.isDigit, ?_, ?_, ?_⟩
    · rw [String.toList_ofList]
    · intro d hd
      rcases List.mem_append.mp hd with hd | hd
      · exact hdigits _ d hd
      · exact hdigits _ d hd
    · by_cases hc : c.isDigit = true
      · rw [List.takeWhile_cons, if_pos hc]
        simp
      · -- the number starts with a point, which has a digit behind it
        rw [List.dropWhile_cons, if_neg hc] at hpoint
        obtain ⟨rfl, rfl⟩ := List.cons.inj hpoint
        cases r with
        | nil => exact absurd h hc
        | cons d r =>
          have hd : d.isDigit = true := h
          rw [List.takeWhile_cons_of_pos hd]
          simp
  · next hpoint =>
    refine ⟨?_, ?_⟩
    · rw [String.toList_ofList]
      rcases startsNumber_head h with hc | rfl
      · rw [List.takeWhile_cons, if_pos hc]
        simp
      · exact absurd rfl (hpoint r)
    · rw [String.toList_ofList]
      exact hdigits _

theorem readWord_spelled (c : Char) (r : List Char) : (readWord c r).token.Spelled := by
  unfold readWord
  split
  · trivial
  split
  · next hc => exact readName_spelled hc
  split
  · next hc => exact readNumber_spelled hc
  split
  · next spelling t h =>
    have hall : ∀ p ∈ Token.symbols, p.2.Spelled := by simp [Token.symbols, Token.Spelled]
    exact hall _ (List.mem_of_find?_eq_some h)
  · trivial

theorem Lexer.next_spelled (l : Lexer) : l.next.1.token.Spelled := by
  have hword : ∀ l : Lexer, l.word.1.token.Spelled := by
    intro l
    unfold word
    split
    · trivial
    · exact readWord_spelled _ _
  unfold next
  dsimp only
  split
  · trivial
  · exact hword _

theorem Lexer.lexemes_spelled (l : Lexer) : ∀ x ∈ l.lexemes, x.token.Spelled := by
  intro x hx
  rw [lexemes_eq] at hx
  by_cases heof : l.next.1.token = .eof
  · rw [if_pos heof] at hx
    rw [List.mem_singleton.mp hx]
    exact l.next_spelled
  · have hless := length_rest_next_lt heof
    rw [if_neg heof] at hx
    rcases List.mem_cons.mp hx with rfl | hx
    · exact l.next_spelled
    · exact lexemes_spelled l.next.2 x hx
termination_by l.rest.length

/-- The names and numbers of a text are spelled as the lexer reads them. -/
theorem tokenize_spelled (source : String) : ∀ x ∈ tokenize source, x.token.Spelled :=
  Lexer.lexemes_spelled _

end Scriptlet
