import Scriptlet.Proofs.Token.Tiling

/-!
# `Proofs.Token.Joined` — texts with a semicolon between them

A word is the longest one that the characters in front can make, and no word but a string goes on over
a line break. So what is read of a text is read in the same way where a line break and other text
follow it, unless the text ends inside a string. Put on a line of its own, a semicolon comes between
the tokens of two texts; blank lines may come with it, where the first text ends in line breaks or the
second one starts with them.

## Contents
- `closesString`, `endsInString`: whether a quote closes a string, and a text that no quote closes.
- `readWord_before`: a word in front of a blank.
- `IsGap`: at most one blank line. `Lexer.tokens_blanks`: the tokens of a text that starts with
  blanks.
- `Lexer.At`: a lexer on its way through a text. `Lexer.At.closes`: a string it finds is closed.
- `tokenize_joined`: the tokens of two texts with a semicolon between them.
-/

namespace Scriptlet

/-! ## Strings that are open at the end -/

/-- Whether a string is closed by a quote, given the characters after its opening quote. -/
def closesString : List Char → Bool
  | [] => false
  | '"' :: _ => true
  | '\\' :: [] => false
  | '\\' :: _ :: r => closesString r
  | _ :: r => closesString r

/-- The characters after the first `n` bytes. -/
def charsFrom (n : Nat) : List Char → List Char
  | [] => []
  | c :: cs => if n = 0 then c :: cs else charsFrom (n - c.utf8Size) cs

/-- Whether the last word of a text is a string that no quote closes. -/
def endsInString (source : String) : Bool :=
  match (tokenize source).dropLast.getLast? with
  | some ⟨start, .str _, _⟩ => !closesString ((charsFrom start source.toList).drop 1)
  | _ => false

theorem charsFrom_append (before after : List Char) :
    charsFrom (Text.byteWidth before) (before ++ after) = after := by
  induction before with
  | nil => cases after <;> rfl
  | cons c cs ih =>
    have hpos := c.utf8Size_pos
    rw [List.cons_append, charsFrom, if_neg (by simp only [Text.byteWidth_cons]; omega),
      Text.byteWidth_cons, Nat.add_sub_cancel_left, ih]

/-- A string that no quote closes goes on to the end of the text. -/
theorem rest_readString {cs : List Char} (h : closesString cs = false) :
    (readString cs).rest = [] := by
  fun_induction readString cs <;> simp_all +zetaDelta [closesString]

theorem readString_before {cs : List Char} (h : closesString cs = true) (y : List Char) :
    readString (cs ++ y) =
      ⟨(readString cs).value, (readString cs).text, (readString cs).rest ++ y⟩ := by
  fun_induction readString cs with
  | case1 | case3 => simp [closesString] at h
  | case2 r => rfl
  | case4 c r body ih =>
    rw [List.cons_append, List.cons_append, readString, ih h]
  | case5 c r hquote hslash hslash' body ih =>
    have hplain : c ≠ '\\' := ne_backslash hslash hslash'
    have hclosed : closesString r = true := by simpa [closesString, hquote, hplain] using h
    rw [List.cons_append, readString_plain hquote hplain, ih hclosed]

/-! ## Words in front of a blank -/

/-- Characters of a class are passed in the same way where more text follows, if something else stands
    behind them. -/
theorem span_before {p : Char → Bool} {cs y : List Char}
    (h : cs.dropWhile p ≠ [] ∨ ∀ d ∈ y.head?, p d = false) :
    (cs ++ y).takeWhile p = cs.takeWhile p ∧ (cs ++ y).dropWhile p = cs.dropWhile p ++ y := by
  have hhead : ∀ d ∈ (cs.dropWhile p ++ y).head?, p d = false := by
    cases hrest : cs.dropWhile p with
    | nil => exact h.resolve_left fun hne => hne hrest
    | cons c r =>
      intro d hd
      cases hd
      have hstop := List.head?_dropWhile_not p cs
      rw [hrest] at hstop
      simpa using hstop
  have hspan := span_append (w := cs.takeWhile p) (fun _ hc => Lexer.mem_takeWhile hc) hhead
  rwa [← List.append_assoc, List.takeWhile_append_dropWhile] at hspan

/-- The word with more text behind it. -/
def Reading.before (w : Reading) (y : List Char) : Reading := { w with rest := w.rest ++ y }

section Before

variable {b : Char} (hb : isBlank b = true) (y : List Char)

include hb

theorem span_blank {p : Char → Bool}
    (hp : p ' ' = false ∧ p '\t' = false ∧ p '\r' = false ∧ p '\n' = false) (cs : List Char) :
    (cs ++ b :: y).takeWhile p = cs.takeWhile p ∧
      (cs ++ b :: y).dropWhile p = cs.dropWhile p ++ b :: y :=
  span_before <| Or.inr fun d hd => by
    cases hd
    exact eq_false_of_isBlank hb hp

theorem readName_before (cs : List Char) :
    readName (cs ++ b :: y) = (readName cs).before (b :: y) := by
  have hspan := span_blank hb y (p := isNameChar) (by decide) cs
  unfold readName Reading.before
  rw [hspan.1, hspan.2]

theorem readNumber_before (cs : List Char) :
    readNumber (cs ++ b :: y) = (readNumber cs).before (b :: y) := by
  have hwhole := span_blank hb y (p := Char.isDigit) (by decide) cs
  have hpoint : b ≠ '.' := by
    rintro rfl
    cases hb
  unfold readNumber
  rw [hwhole.1, hwhole.2]
  cases hrest : cs.dropWhile Char.isDigit with
  | nil => simp [hpoint, Reading.before]
  | cons c r =>
    by_cases hpoint : c = '.'
    · subst hpoint
      have hplaces := span_blank hb y (p := Char.isDigit) (by decide) r
      simp only [List.cons_append, Reading.before]
      rw [hplaces.1, hplaces.2]
    · simp [hpoint, Reading.before]

theorem startsNumber_before (c : Char) (r : List Char) :
    startsNumber (c :: (r ++ b :: y)) = startsNumber (c :: r) := by
  by_cases hpoint : c = '.'
  · subst hpoint
    cases r with
    | nil => exact eq_false_of_isBlank (p := Char.isDigit) hb (by decide)
    | cons d r => rfl
  · simp [startsNumber, hpoint]

/-- No symbol has a blank in it. -/
theorem symbol?_before (c : Char) (r : List Char) :
    Token.symbol? (c :: (r ++ b :: y)) = Token.symbol? (c :: r) := by
  have hprefix : ∀ w cs : List Char, b ∉ w → w.isPrefixOf (cs ++ b :: y) = w.isPrefixOf cs := by
    intro w
    induction w with
    | nil => simp
    | cons d w ih =>
      intro cs hw
      rw [List.mem_cons, not_or] at hw
      cases cs with
      | nil => simp [List.isPrefixOf, Ne.symm hw.1]
      | cons e cs => simp [List.isPrefixOf, ih cs hw.2]
  have hplain : ∀ p ∈ Token.symbols, b ∉ p.1 := by
    rcases eq_of_isBlank hb with rfl | rfl | rfl | rfl <;> decide
  unfold Token.symbol?
  generalize Token.symbols = symbols at hplain
  induction symbols with
  | nil => rfl
  | cons p ps ih =>
    rw [List.forall_mem_cons] at hplain
    have hp : p.1.isPrefixOf (c :: (r ++ b :: y)) = p.1.isPrefixOf (c :: r) :=
      hprefix p.1 (c :: r) hplain.1
    rw [List.find?_cons, List.find?_cons, ih hplain.2]
    dsimp only
    rw [hp]

/-- A word in front of a blank, a string only if it is closed. -/
theorem readWord_before {c : Char} {r : List Char} (h : c = '"' → closesString r = true) :
    readWord c (r ++ b :: y) = (readWord c r).before (b :: y) := by
  unfold readWord
  rw [startsNumber_before hb, symbol?_before hb]
  split
  · next hquote =>
    rw [readString_before (h hquote)]
    rfl
  split
  · exact readName_before hb y (c :: r)
  split
  · exact readNumber_before hb y (c :: r)
  split
  · next spelling t hsymbol =>
    have hlen := (Token.symbol?_eq_some hsymbol).1.length_le
    show Reading.mk t spelling ((c :: r ++ b :: y).drop spelling.length) = _
    rw [List.drop_append_of_le_length hlen]
    rfl
  · rfl

end Before

/-! ## Blanks -/

/-- The tokens that blanks may give: a blank line or none. -/
def IsGap (ts : List Token) : Prop := ts = [] ∨ ts = [.blankLine]

namespace Lexer

variable {l l' : Lexer}

/-- What is in front of a lexer after the blanks does not depend on them. -/
theorem rest_skip_append {bs r : List Char} {c : Char} (hbs : ∀ d ∈ bs, isBlank d = true)
    (hc : isBlank c = false) (h : l.rest = bs ++ c :: r) :
    ((l.skip isSpacing).skip isBlank).rest = c :: r := by
  show (l.rest.dropWhile isSpacing).dropWhile isBlank = c :: r
  have hspan : (bs ++ c :: r).takeWhile isSpacing = bs.takeWhile isSpacing ∧
      (bs ++ c :: r).dropWhile isSpacing = bs.dropWhile isSpacing ++ c :: r :=
    span_before <| Or.inr fun d hd => by
      cases hd
      exact not_isSpacing hc
  have hleft : ∀ d ∈ bs.dropWhile isSpacing, isBlank d = true := fun d hd =>
    hbs d ((List.dropWhile_suffix isSpacing).subset hd)
  rw [h, hspan.2, (span_append hleft (isBlank_head hc r)).2]

/-- Blanks give a blank line or nothing, and nothing at the start of a text. -/
theorem tokens_blanks {bs r : List Char} {c : Char} (hbs : ∀ d ∈ bs, isBlank d = true)
    (hc : isBlank c = false) (h : l.rest = bs ++ c :: r) :
    ∃ gap, IsGap gap ∧ (l.begun = false → gap = []) ∧
      l.lexemes.map Lexeme.token = gap ++ tokensOf (c :: r) := by
  have hrest := rest_skip_append hbs hc h
  rcases l.next_cases with ⟨hnil, -⟩ | ⟨-, -, -, hnext⟩ | ⟨hbegun, -, -, hnext⟩
  · rw [hnil] at hrest
    cases hrest
  · refine ⟨[], Or.inl rfl, fun _ => rfl, ?_⟩
    have hseen : seen l.next = seen (next ⟨0, c :: r, true⟩) := by
      rw [hnext, seen_word_cons hrest, seen_next_cons hc rfl]
    exact tokens_of_seen hseen
  · refine ⟨[.blankLine], Or.inr rfl, fun hnot => ?_, ?_⟩
    · rw [hnot] at hbegun
      cases hbegun
    · refine tokens_cons (r := c :: r) ?_ (by simp)
      rw [hnext, ← hrest, ← hbegun]
      rfl

/-- Blanks alone give nothing. -/
theorem tokens_end (hbs : ∀ d ∈ l.rest, isBlank d = true) :
    l.lexemes.map Lexeme.token = [.eof] := by
  have hnil : ((l.skip isSpacing).skip isBlank).rest = [] := by
    have hspan := span_append (w := l.rest.dropWhile isSpacing) (r := [])
      (fun d hd => hbs d ((List.dropWhile_suffix isSpacing).subset hd)) (by simp)
    rw [List.append_nil] at hspan
    exact hspan.2
  rcases l.next_cases with ⟨-, hnext⟩ | ⟨c, r, hrest, -⟩ | ⟨-, hrest, -, -⟩
  · rw [lexemes_eq, if_pos (by rw [hnext]; rfl), hnext]
    rfl
  · rw [hnil] at hrest
    cases hrest
  · exact absurd hnil hrest

/-- Blanks without a blank line, and blanks at the start of a text, are passed in silence. -/
theorem next_eq_word_of_not
    (h : ¬ (2 ≤ ((l.skip isSpacing).rest.takeWhile isBlank).count '\n' ∧ l.begun = true)) :
    l.next = ((l.skip isSpacing).skip isBlank).word := by
  unfold next
  rw [if_neg]
  intro hblank
  simp only [Bool.and_eq_true, decide_eq_true_eq] at hblank
  exact h hblank.1

/-- A step where a word is left after the blanks. -/
theorem seen_next_eq {c : Char} {r : List Char}
    (h : ((l.skip isSpacing).skip isBlank).rest = c :: r) :
    seen l.next =
      if 2 ≤ ((l.skip isSpacing).rest.takeWhile isBlank).count '\n' ∧ l.begun = true then
        (.blankLine, c :: r, true)
      else ((readWord c r).token, (readWord c r).rest, true) := by
  split
  · next hblank =>
    have hne : ((l.skip isSpacing).skip isBlank).rest ≠ [] := by simp [h]
    rw [← h]
    exact next_eq_blankLine hblank.1 hblank.2 hne
  · next hword => rw [next_eq_word_of_not hword, seen_word_cons h]

/-- A step over a word or a blank line is the same where more text follows that does not change the
    word. -/
theorem seen_next_before {y : List Char} (hrest : l'.rest = l.rest ++ y) (hbegun : l'.begun = l.begun)
    {c : Char} {r : List Char} (hcr : ((l.skip isSpacing).skip isBlank).rest = c :: r)
    (hword : l.next = ((l.skip isSpacing).skip isBlank).word →
      readWord c (r ++ y) = (readWord c r).before y) :
    seen l'.next = ((seen l.next).1, (seen l.next).2.1 ++ y, true) := by
  have hne : ((l.skip isSpacing).skip isBlank).rest ≠ [] := by simp [hcr]
  have hstart : (l'.skip isSpacing).rest = (l.skip isSpacing).rest ++ y := by
    show l'.rest.dropWhile isSpacing = _
    rw [hrest]
    refine (span_before (Or.inl fun hnil => hne ?_)).2
    show (l.rest.dropWhile isSpacing).dropWhile isBlank = []
    rw [hnil]
    rfl
  have hspan := span_before (y := y) (Or.inl hne)
  have hafter : ((l'.skip isSpacing).skip isBlank).rest = c :: (r ++ y) := by
    show (l'.skip isSpacing).rest.dropWhile isBlank = _
    rw [hstart, hspan.2]
    exact congrArg (· ++ y) hcr
  rw [seen_next_eq hcr, seen_next_eq hafter, hstart, hspan.1, hbegun]
  split
  · rfl
  · next hnot =>
    rw [hword (next_eq_word_of_not hnot)]
    rfl

end Lexer

/-- A text behind a word and a line break, a blank line more or less. -/
theorem tokensOf_behind (cs : List Char) :
    ∃ gap, IsGap gap ∧
      tokensOf ('\n' :: cs) = gap ++ (Lexer.ofChars cs).lexemes.map Lexeme.token := by
  have hblank : ∀ d ∈ cs.takeWhile isBlank, isBlank d = true := fun d hd => Lexer.mem_takeWhile hd
  have hblank' : ∀ d ∈ '\n' :: cs.takeWhile isBlank, isBlank d = true :=
    List.forall_mem_cons.mpr ⟨rfl, hblank⟩
  have hsplit : cs.takeWhile isBlank ++ cs.dropWhile isBlank = cs := List.takeWhile_append_dropWhile
  cases hrest : cs.dropWhile isBlank with
  | nil =>
    rw [hrest, List.append_nil] at hsplit
    rw [hsplit] at hblank hblank'
    refine ⟨[], Or.inl rfl, ?_⟩
    rw [Lexer.tokens_end (l := .ofChars cs) hblank]
    exact Lexer.tokens_end (l := ⟨0, '\n' :: cs, true⟩) hblank'
  | cons c r =>
    rw [hrest] at hsplit
    have hc : isBlank c = false := by
      have hstop := List.head?_dropWhile_not isBlank cs
      rw [hrest] at hstop
      simpa using hstop
    obtain ⟨gap, hgap, -, htokens⟩ := Lexer.tokens_blanks (l := ⟨0, '\n' :: cs, true⟩) hblank' hc
      (by rw [List.cons_append, hsplit])
    obtain ⟨_, _, hnone, htokens'⟩ := Lexer.tokens_blanks (l := .ofChars cs) hblank hc hsplit.symm
    refine ⟨gap, hgap, ?_⟩
    rw [htokens', hnone rfl]
    exact htokens

/-! ## On the way through a text -/

namespace Lexer

/-- The lexer stands at a place of the text, between two of its lexemes. -/
structure At (source : String) (l : Lexer) : Prop where
  place : ∃ before, source.toList = before ++ l.rest ∧ l.offset = Text.byteWidth before
  lexemes : l.lexemes <:+ tokenize source

namespace At

variable {source : String} {l : Lexer}

theorem start (source : String) : At source (.ofChars source.toList) :=
  ⟨⟨[], rfl, rfl⟩, List.suffix_refl _⟩

/-- A step leads to the next place. -/
theorem next (h : At source l) (hne : l.next.1.token ≠ .eof) : At source l.next.2 := by
  obtain ⟨⟨before, hsource, hoffset⟩, hlexemes⟩ := h
  constructor
  · have hmargin : source.toList =
        before ++ l.margin ++ ((l.skip isSpacing).skip isBlank).rest := by
      rw [List.append_assoc, ← rest_eq_margin, hsource]
    have hwidth : ((l.skip isSpacing).skip isBlank).offset =
        Text.byteWidth (before ++ l.margin) := by
      rw [offset_margin, hoffset, Text.byteWidth_append]
    rcases l.next_cases with ⟨-, hnext⟩ | ⟨c, r, hrest, hnext⟩ | ⟨-, -, -, hnext⟩
    · rw [hnext] at hne
      exact absurd rfl hne
    · refine ⟨before ++ l.margin ++ (readWord c r).text, ?_, ?_⟩
      · rw [hmargin, hrest, hnext, word_cons hrest, List.append_assoc (before ++ l.margin),
          readWord_append]
      · rw [hnext, word_cons hrest, Text.byteWidth_append, ← hwidth]
    · exact ⟨before ++ l.margin, by rw [hmargin, hnext], by rw [hnext, hwidth]⟩
  · rw [lexemes_eq, if_neg hne] at hlexemes
    exact (List.suffix_cons _ _).trans hlexemes

/-- A string that the text does not end in is closed by a quote. -/
theorem closes (h : At source l) (hopen : endsInString source = false) {r : List Char}
    (hrest : ((l.skip isSpacing).skip isBlank).rest = '"' :: r)
    (hnext : l.next = ((l.skip isSpacing).skip isBlank).word) : closesString r = true := by
  rw [← Bool.not_eq_false]
  intro hclosed
  obtain ⟨⟨before, hsource, hoffset⟩, front, hlexemes⟩ := h
  -- a string that no quote closes leaves nothing, so that it is the last word of the text
  have hread : readWord '"' r =
      ⟨.str (String.ofList (readString r).value), '"' :: (readString r).text, []⟩ := by
    unfold readWord
    rw [if_pos rfl]
    dsimp only
    rw [rest_readString hclosed]
  have hstring : l.next.1 = ⟨Text.byteWidth (before ++ l.margin),
      .str (String.ofList (readString r).value), l.next.1.stop⟩ := by
    rw [hnext, word_cons hrest, hread, Text.byteWidth_append, ← hoffset, ← offset_margin]
  have hleft : l.next.2.rest = [] := by rw [hnext, word_cons hrest, hread]
  obtain ⟨last, hlast⟩ : ∃ last, l.next.2.lexemes = [last] := by
    have htokens := tokens_end (l := l.next.2) (by simp [hleft])
    exact List.length_eq_one_iff.mp (by simpa using congrArg List.length htokens)
  have hall : tokenize source = (front ++ [l.next.1]) ++ [last] := by
    rw [← hlexemes, lexemes_eq, if_neg (by rw [hstring]; simp), hlast, List.append_assoc]
    rfl
  have hplace : source.toList = (before ++ l.margin) ++ '"' :: r := by
    rw [List.append_assoc, ← hrest, ← rest_eq_margin, hsource]
  have hend : endsInString source = true := by
    unfold endsInString
    rw [hall, List.dropLast_concat, List.getLast?_concat, hstring]
    dsimp only
    rw [hplace, charsFrom_append, List.drop_one, List.tail_cons, hclosed]
    rfl
  rw [hopen] at hend
  cases hend

end At

/-- What is left of a text is read in the same way in front of a semicolon on a line of its own. -/
theorem At.tokens_before_semicolon {source : String} {l l' : Lexer} (h : At source l)
    (hopen : endsInString source = false) {z : List Char}
    (hrest : l'.rest = l.rest ++ '\n' :: ';' :: z) (hbegun : l'.begun = l.begun) :
    ∃ ts gap, IsGap gap ∧ (∀ t ∈ ts, t ≠ .eof) ∧ l.lexemes.map Lexeme.token = ts ++ [.eof] ∧
      l'.lexemes.map Lexeme.token = ts ++ gap ++ .semicolon :: tokensOf z := by
  cases hcr : ((l.skip isSpacing).skip isBlank).rest with
  | nil =>
    -- only blanks are left of the text; they and the line break stand before the semicolon
    have hmargin : l.rest = l.margin := by rw [rest_eq_margin, hcr, List.append_nil]
    have hblank : ∀ d ∈ l.rest, isBlank d = true := fun d hd => l.isBlank_margin d (hmargin ▸ hd)
    have hblank' : ∀ d ∈ l.rest ++ ['\n'], isBlank d = true := by
      intro d hd
      rcases List.mem_append.mp hd with hd | hd
      · exact hblank d hd
      · rw [List.mem_singleton.mp hd]
        rfl
    obtain ⟨gap, hgap, -, htokens⟩ := tokens_blanks (l := l') hblank' (c := ';') (r := z) rfl
      (by rw [hrest, List.append_assoc]; rfl)
    refine ⟨[], gap, hgap, by simp, tokens_end hblank, ?_⟩
    rw [htokens, tokensOf_mark ';' rfl]
    rfl
  | cons c r =>
    have hseen := seen_next_before hrest hbegun hcr fun hnext =>
      readWord_before rfl (';' :: z) fun hquote => h.closes hopen (hquote ▸ hcr) hnext
    obtain ⟨hne, hbegun'⟩ : l.next.1.token ≠ .eof ∧ l.next.2.begun = true := by
      rcases l.next_cases with ⟨hnil, -⟩ | ⟨-, -, -, hnext⟩ | ⟨hbegun, -, -, hnext⟩
      · rw [hnil] at hcr
        cases hcr
      · rw [hnext, word_cons hcr]
        exact ⟨readWord_ne_eof c r, rfl⟩
      · rw [hnext]
        exact ⟨by simp, hbegun⟩
    have hless := length_rest_next_lt hne
    let after : Lexer := ⟨0, l.next.2.rest ++ '\n' :: ';' :: z, true⟩
    have hafter : after.rest = l.next.2.rest ++ '\n' :: ';' :: z := rfl
    obtain ⟨ts, gap, hgap, hts, htokens, htokens'⟩ :=
      (h.next hne).tokens_before_semicolon hopen hafter hbegun'.symm
    refine ⟨l.next.1.token :: ts, gap, hgap, List.forall_mem_cons.mpr ⟨hne, hts⟩, ?_, ?_⟩
    · rw [lexemes_eq, if_neg hne, List.map_cons, htokens]
      rfl
    · rw [tokens_cons hseen hne]
      exact congrArg _ htokens'
termination_by l.rest.length

end Lexer

/-- The tokens of two texts with a semicolon between them on a line of its own are those of the first
    text up to its end, the semicolon, and those of the second text. Before and behind the semicolon
    there may be a blank line. -/
theorem tokenize_joined {a : String} (ha : endsInString a = false) (b : String) :
    ∃ ts gap gap', IsGap gap ∧ IsGap gap' ∧ (∀ t ∈ ts, t ≠ .eof) ∧
      (tokenize a).map Lexeme.token = ts ++ [.eof] ∧
      (tokenize (a ++ "\n;\n" ++ b)).map Lexeme.token =
        ts ++ gap ++ .semicolon :: (gap' ++ (tokenize b).map Lexeme.token) := by
  have hsource : (Lexer.ofChars (a ++ "\n;\n" ++ b).toList).rest =
      (Lexer.ofChars a.toList).rest ++ '\n' :: ';' :: '\n' :: b.toList := by
    simp [Lexer.ofChars]
  obtain ⟨ts, gap, hgap, hts, htokens, hjoined⟩ :=
    (Lexer.At.start a).tokens_before_semicolon ha hsource rfl
  obtain ⟨gap', hgap', hbehind⟩ := tokensOf_behind b.toList
  rw [hbehind] at hjoined
  exact ⟨ts, gap, gap', hgap, hgap', hts, htokens, hjoined⟩

end Scriptlet
