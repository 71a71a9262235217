import Scriptlet.Proofs.Token.Spelling

/-!
# `Proofs.Token.Tiling` — the lexemes of a text cover it from left to right

Cut at the places of its lexemes, a text falls into words and the blanks between them. A lexeme says
how many bytes lie before its word and before what comes after it.

## Contents
- `readWord_isSilent`: a word is neither the end of the text nor a blank line.
- `Tiled`: the characters after some bytes, cut into the words of a list of lexemes.
- `Lexer.lexemes_tiled`: the lexemes from any place cut the text that is left there.
- `IsBoundary`, `Ordered`: positions between the characters of a text, and lexemes that lie behind each
  other between such positions. `tokenize_ordered`: those of a text do.
-/

namespace Scriptlet

/-! ## Words are neither the end of the text nor blank lines -/

/-- Tokens that stand for no word: the end of the text and blank lines. -/
def Token.isSilent : Token → Bool
  | .eof | .blankLine => true
  | _ => false

theorem keyword?_isSilent {word : String} {t : Token} (h : Token.keyword? word = some t) :
    t.isSilent = false := by
  obtain ⟨before, after, hsplit, -⟩ := List.lookup_eq_some_iff.mp h
  have hmem : (word, t) ∈ Token.keywords := by
    rw [hsplit]
    exact List.mem_append_right before List.mem_cons_self
  have hall : ∀ p ∈ Token.keywords, p.2.isSilent = false := by decide
  exact hall _ hmem

theorem symbol?_isSilent {cs spelling : List Char} {t : Token}
    (h : Token.symbol? cs = some (spelling, t)) : t.isSilent = false := by
  have hall : ∀ p ∈ Token.symbols, p.2.isSilent = false := by decide
  exact hall _ (List.mem_of_find?_eq_some h)

theorem readNumber_isSilent (cs : List Char) : (readNumber cs).token.isSilent = false := by
  unfold readNumber
  split <;> rfl

theorem readName_isSilent (cs : List Char) : (readName cs).token.isSilent = false := by
  unfold readName
  dsimp only
  cases hkey : Token.keyword? (String.ofList (cs.takeWhile isNameChar)) with
  | none => rfl
  | some t => exact keyword?_isSilent hkey

/-- A word is neither the end of the text nor a blank line. -/
theorem readWord_isSilent (c : Char) (r : List Char) : (readWord c r).token.isSilent = false := by
  unfold readWord
  split
  · rfl
  split
  · exact readName_isSilent _
  split
  · exact readNumber_isSilent _
  split
  · next h => exact symbol?_isSilent h
  · rfl

theorem readWord_ne_eof (c : Char) (r : List Char) : (readWord c r).token ≠ .eof := by
  intro heof
  have h := readWord_isSilent c r
  rw [heof] at h
  cases h

/-! ## Cutting a text -/

/-- The characters after `p` bytes of a text, cut at some lexemes: blanks, a word or a run of blanks
    that is a word of its own, and so on up to the end of the text. -/
inductive Tiled : Nat → List Char → List Lexeme → Prop
  | last {p : Nat} {gap : List Char} (hgap : ∀ c ∈ gap, isBlank c = true) :
      Tiled p gap [.endAt (p + Text.byteWidth gap)]
  | word {p start stop : Nat} {gap : List Char} {c : Char} {r : List Char} {xs : List Lexeme}
      (hgap : ∀ d ∈ gap, isBlank d = true) (hc : isBlank c = false)
      (hstart : start = p + Text.byteWidth gap)
      (hstop : stop = start + Text.byteWidth (readWord c r).text)
      (h : Tiled stop (readWord c r).rest xs) :
      Tiled p (gap ++ c :: r) (⟨start, (readWord c r).token, stop⟩ :: xs)
  | blankLine {p start stop : Nat} {gap blanks r : List Char} {xs : List Lexeme}
      (hgap : ∀ d ∈ gap, isBlank d = true) (hblanks : ∀ d ∈ blanks, isBlank d = true)
      (hne : blanks ≠ []) (hstart : start = p + Text.byteWidth gap)
      (hstop : stop = start + Text.byteWidth blanks) (h : Tiled stop r xs) :
      Tiled p (gap ++ (blanks ++ r)) (⟨start, .blankLine, stop⟩ :: xs)

namespace Lexer

theorem offset_skip (l : Lexer) (p : Char → Bool) :
    (l.skip p).offset = l.offset + Text.byteWidth (l.rest.takeWhile p) := rfl

theorem rest_eq_skip (l : Lexer) (p : Char → Bool) :
    l.rest = l.rest.takeWhile p ++ (l.skip p).rest :=
  List.takeWhile_append_dropWhile.symm

theorem mem_takeWhile {p : Char → Bool} {cs : List Char} {c : Char} (h : c ∈ cs.takeWhile p) :
    p c = true :=
  List.all_eq_true.mp List.all_takeWhile c h

/-- What is skipped before a word, in one piece. -/
def margin (l : Lexer) : List Char :=
  l.rest.takeWhile isSpacing ++ (l.skip isSpacing).rest.takeWhile isBlank

theorem isBlank_margin (l : Lexer) : ∀ c ∈ l.margin, isBlank c = true := by
  intro c hc
  rcases List.mem_append.mp hc with hc | hc
  · have hspacing : isSpacing c = true := mem_takeWhile hc
    simp [isBlank, hspacing]
  · exact mem_takeWhile hc

theorem rest_eq_margin (l : Lexer) :
    l.rest = l.margin ++ ((l.skip isSpacing).skip isBlank).rest := by
  conv => lhs; rw [rest_eq_skip l isSpacing, rest_eq_skip (l.skip isSpacing) isBlank]
  exact (List.append_assoc _ _ _).symm

theorem offset_margin (l : Lexer) :
    ((l.skip isSpacing).skip isBlank).offset = l.offset + Text.byteWidth l.margin := by
  rw [offset_skip, offset_skip, margin, Text.byteWidth_append, Nat.add_assoc]

/-- After the blanks no blank stands in front. -/
theorem isBlank_skip {l : Lexer} {c : Char} {r : List Char} (h : (l.skip isBlank).rest = c :: r) :
    isBlank c = false := by
  have hhead := List.head?_dropWhile_not isBlank l.rest
  have hrest : l.rest.dropWhile isBlank = c :: r := h
  rw [hrest] at hhead
  simpa using hhead

/-- One step of the lexer ends the text, passes a word, or passes a run of blanks as a word. -/
theorem next_cases (l : Lexer) :
    (((l.skip isSpacing).skip isBlank).rest = [] ∧
      l.next.1 = .endAt ((l.skip isSpacing).skip isBlank).offset) ∨
    (∃ c r, ((l.skip isSpacing).skip isBlank).rest = c :: r ∧
      l.next = ((l.skip isSpacing).skip isBlank).word) ∨
    (l.begun = true ∧ ((l.skip isSpacing).skip isBlank).rest ≠ [] ∧
      (l.skip isSpacing).rest.takeWhile isBlank ≠ [] ∧
      l.next = (⟨(l.skip isSpacing).offset, .blankLine, ((l.skip isSpacing).skip isBlank).offset⟩,
        (l.skip isSpacing).skip isBlank)) := by
  unfold next
  dsimp only
  split
  · next hblank =>
    right; right
    simp only [Bool.and_eq_true, decide_eq_true_eq] at hblank
    refine ⟨hblank.1.2, fun hnil => ?_, fun hnil => ?_, rfl⟩
    · rw [hnil] at hblank
      simp at hblank
    rw [hnil] at hblank
    simp at hblank
  · cases hrest : ((l.skip isSpacing).skip isBlank).rest with
    | nil =>
      left
      rw [word_nil hrest]
      exact ⟨rfl, rfl⟩
    | cons c r =>
      right; left
      exact ⟨c, r, rfl, rfl⟩

/-- The word at a place, and the place after it. -/
theorem word_cons {l : Lexer} {c : Char} {r : List Char} (h : l.rest = c :: r) :
    l.word = (⟨l.offset, (readWord c r).token, l.offset + Text.byteWidth (readWord c r).text⟩,
      ⟨l.offset + Text.byteWidth (readWord c r).text, (readWord c r).rest, true⟩) := by
  unfold word
  rw [h]
  rfl

/-- The lexemes from a place on cut the text that is left there. -/
theorem lexemes_tiled (l : Lexer) : Tiled l.offset l.rest l.lexemes := by
  rw [lexemes_eq]
  rcases l.next_cases with ⟨hrest, hnext⟩ | ⟨c, r, hrest, hnext⟩ | ⟨-, -, hne, hnext⟩
  · -- nothing but blanks is left
    rw [if_pos (by rw [hnext]; rfl), hnext, offset_margin, rest_eq_margin l, hrest, List.append_nil]
    exact .last l.isBlank_margin
  · have hword := hnext.trans (word_cons hrest)
    have hless := length_rest_next_lt (l := l) (by rw [hword]; exact readWord_ne_eof c r)
    rw [if_neg (by rw [hword]; exact readWord_ne_eof c r)]
    have hmore := lexemes_tiled l.next.2
    rw [hword] at hmore ⊢
    rw [rest_eq_margin l, hrest]
    exact .word l.isBlank_margin (isBlank_skip hrest) l.offset_margin rfl hmore
  · have hless := length_rest_next_lt (l := l) (by rw [hnext]; simp)
    rw [if_neg (by rw [hnext]; simp)]
    have hmore := lexemes_tiled l.next.2
    rw [hnext] at hmore ⊢
    rw [rest_eq_margin l, margin, List.append_assoc]
    refine .blankLine (fun d hd => ?_) (fun d hd => mem_takeWhile hd) hne rfl rfl hmore
    have hspacing : isSpacing d = true := mem_takeWhile hd
    simp [isBlank, hspacing]
termination_by l.rest.length

end Lexer

/-- The lexemes of a text cut it from its start. -/
theorem tokenize_tiled (source : String) : Tiled 0 source.toList (tokenize source) :=
  Lexer.lexemes_tiled (Lexer.ofChars source.toList)

/-! ## Positions -/

/-- A position of a text that does not lie behind its end or inside a character. -/
def IsBoundary (source : String) (n : Nat) : Prop :=
  n ≤ source.utf8ByteSize ∧ String.Pos.Raw.IsValid source ⟨n⟩

theorem utf8ByteSize_ofList (cs : List Char) :
    (String.ofList cs).utf8ByteSize = Text.byteWidth cs := by
  induction cs with
  | nil => rfl
  | cons c cs ih => simp [String.ofList_cons, ih]

/-- The bytes of what a text starts with lead to a boundary. -/
theorem isBoundary_of_append {source : String} {before after : List Char}
    (h : source.toList = before ++ after) : IsBoundary source (Text.byteWidth before) := by
  have hsource : source = String.ofList before ++ String.ofList after := by
    rw [← String.ofList_append, ← h, String.ofList_toList]
  constructor
  · rw [hsource, String.utf8ByteSize_append, utf8ByteSize_ofList]
    exact Nat.le_add_right _ _
  · rw [String.Pos.Raw.isValid_iff_exists_append]
    refine ⟨String.ofList before, String.ofList after, hsource, ?_⟩
    rw [← utf8ByteSize_ofList]
    rfl

/-- The lexemes lie behind `p` and behind each other, start and end at positions with a property, and
    are not empty but for the end of the text. -/
def Ordered (Ok : Nat → Prop) : Nat → List Lexeme → Prop
  | _, [] => True
  | p, x :: xs => p ≤ x.start ∧ x.start ≤ x.stop ∧ (x.token ≠ .eof → x.start < x.stop)
      ∧ Ok x.start ∧ Ok x.stop ∧ Ordered Ok x.stop xs

/-- A piece of a text, cut out behind a gap, lies in order before what comes after it. -/
theorem ordered_cons {source : String} {before gap text rest : List Char} {start stop : Nat}
    {t : Token} {xs : List Lexeme} (h : source.toList = before ++ (gap ++ (text ++ rest)))
    (hne : text ≠ []) (hstart : start = Text.byteWidth before + Text.byteWidth gap)
    (hstop : stop = start + Text.byteWidth text)
    (hmore : (∃ front, source.toList = front ++ rest ∧ stop = Text.byteWidth front) →
      Ordered (IsBoundary source) stop xs) :
    Ordered (IsBoundary source) (Text.byteWidth before) (⟨start, t, stop⟩ :: xs) := by
  have hwidth : 0 < Text.byteWidth text :=
    Nat.lt_of_lt_of_le (List.length_pos_iff.mpr hne) (Text.length_le_byteWidth _)
  have hfront : source.toList = (before ++ gap) ++ (text ++ rest) := by
    rw [h, List.append_assoc]
  have hback : source.toList = (before ++ gap ++ text) ++ rest := by
    rw [hfront, List.append_assoc (before ++ gap)]
  have hstart' : start = Text.byteWidth (before ++ gap) := by
    rw [hstart, Text.byteWidth_append]
  have hstop' : stop = Text.byteWidth (before ++ gap ++ text) := by
    rw [hstop, hstart', Text.byteWidth_append (before ++ gap)]
  refine ⟨by simp only; omega, by simp only; omega, fun _ => by simp only; omega, ?_, ?_,
    hmore ⟨_, hback, hstop'⟩⟩
  · exact hstart' ▸ isBoundary_of_append hfront
  · exact hstop' ▸ isBoundary_of_append hback

/-- Lexemes that cut what is left of a text lie in order between its boundaries. -/
theorem Tiled.ordered {source : String} {p : Nat} {cs : List Char} {xs : List Lexeme}
    (h : Tiled p cs xs) (hp : ∃ before, source.toList = before ++ cs ∧ p = Text.byteWidth before) :
    Ordered (IsBoundary source) p xs := by
  induction h with
  | @last p gap hgap =>
    obtain ⟨before, hsource, rfl⟩ := hp
    have hwhole : source.toList = (before ++ gap) ++ [] := by rw [hsource, List.append_nil]
    have hend : IsBoundary source (Text.byteWidth before + Text.byteWidth gap) := by
      rw [← Text.byteWidth_append]
      exact isBoundary_of_append hwhole
    exact ⟨Nat.le_add_right _ _, Nat.le_refl _, fun hne => absurd rfl hne, hend, hend, trivial⟩
  | @word p start stop gap c r xs hgap hc hstart hstop h ih =>
    obtain ⟨before, hsource, rfl⟩ := hp
    rw [← readWord_append c r] at hsource
    exact ordered_cons hsource (readWord_text_ne_nil c r) hstart hstop ih
  | blankLine hgap hblanks hne hstart hstop h ih =>
    obtain ⟨before, hsource, rfl⟩ := hp
    exact ordered_cons hsource hne hstart hstop ih

/-- The lexemes of a text lie in order between its characters. -/
theorem tokenize_ordered (source : String) : Ordered (IsBoundary source) 0 (tokenize source) :=
  (tokenize_tiled source).ordered ⟨[], rfl, rfl⟩

end Scriptlet
