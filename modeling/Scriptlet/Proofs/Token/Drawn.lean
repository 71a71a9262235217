import Mathlib.Data.List.Find
import Scriptlet.Proofs.Token.Tiling
import Scriptlet.Token.Reader

/-!
# `Proofs.Token.Drawn` — the reader's window shows the lexer's text

A reader knows two characters of its text and the draws behind them, the lexer knows all characters.
Where all draws give characters, each with its place, the window is a function of what the lexer knows,
and every move of the one is a move of the other.

## Contents
- `placed`: the draws of a text, which are the same whether its positions are counted or known by what
  is left of it (`indexed_eq`).
- `Reader.on`: the window on the characters behind a position, `Reader.advance_on`: how it moves.
- `Reader.takeWhile_on`, `Reader.stringBody_on`, `Reader.wordAt_on`: words.
- `Lexer.drawn`: the window of a lexer's place, `Lexer.next_drawn`: a step of both,
  `Lexer.lexemes_drawn`: whole runs, which leave nothing undrawn.
-/

namespace Scriptlet

open Text (byteWidth)

/-! ## The draws of a text -/

/-- The draws that characters give, counted from the byte `position` on. -/
def placed (position : Nat) (cs : List Char) : List PlacedDraw := counted position (cs.map some)

@[simp] theorem placed_nil (p : Nat) : placed p [] = [] := rfl

@[simp] theorem placed_cons (p : Nat) (c : Char) (cs : List Char) :
    placed p (c :: cs) = some (p, c) :: placed (p + c.utf8Size) cs := rfl

@[simp] theorem length_placed (p : Nat) (cs : List Char) : (placed p cs).length = cs.length := by
  rw [placed, length_counted, List.length_map]

/-- Positions told by what is left are those told by what went before. -/
theorem indexedFrom_eq (p : Nat) (cs : List Char) :
    indexedFrom (p + byteWidth cs) cs = placed p cs := by
  induction cs generalizing p with
  | nil => rfl
  | cons c cs ih =>
    have hmore := ih (p + c.utf8Size)
    rw [Nat.add_assoc] at hmore
    rw [placed_cons, ← hmore]
    simp [indexedFrom]

theorem utf8ByteSize_eq (source : String) : source.utf8ByteSize = byteWidth source.toList := by
  conv => lhs; rw [← String.ofList_toList (s := source)]
  exact utf8ByteSize_ofList _

/-- The draws of a text are those of its characters, counted from its start. -/
theorem indexed_eq (source : String) : indexed source = placed 0 source.toList := by
  have h := indexedFrom_eq 0 source.toList
  rwa [Nat.zero_add, ← utf8ByteSize_eq] at h

/-! ## What two characters tell -/

/-- Two characters tell whether a number starts. -/
theorem startsNumber_take_two (cs : List Char) : startsNumber (cs.take 2) = startsNumber cs := by
  match cs with
  | [] => rfl
  | [_] => rfl
  | c :: d :: r =>
    show startsNumber [c, d] = startsNumber (c :: d :: r)
    by_cases hc : c = '.'
    · subst hc
      rfl
    · rw [startsNumber, startsNumber] <;> simp [hc]

/-- Two characters tell which symbol a text starts with. -/
theorem symbol?_take_two (cs : List Char) : Token.symbol? (cs.take 2) = Token.symbol? cs := by
  have hlength : ∀ entry ∈ Token.symbols, entry.1.length ≤ 2 := by decide
  refine List.find?_congr fun entry hentry => ?_
  rw [Bool.eq_iff_iff, List.isPrefixOf_iff_prefix, List.isPrefixOf_iff_prefix, List.prefix_take_iff]
  exact and_iff_left (hlength entry hentry)

/-! ## The window -/

namespace Reader

/-- The window on the characters behind the position `p`. -/
def on (p : Nat) (cs : List Char) (begun : Bool) : Reader :=
  { position := p
    upcomingPosition := p + width cs.head?
    current := cs.head?
    upcoming := cs.tail.head?
    undrawn := placed (p + byteWidth (cs.take 2)) (cs.drop 2)
    begun := begun }

variable {p : Nat} {cs : List Char} {begun : Bool}

@[simp] theorem on_position : (on p cs begun).position = p := rfl

@[simp] theorem on_current : (on p cs begun).current = cs.head? := rfl

@[simp] theorem on_begun : (on p cs begun).begun = begun := rfl

/-- The window moves by a character of the text. -/
theorem advance_on (c : Char) : (on p (c :: cs) begun).advance = on (p + c.utf8Size) cs begun := by
  match cs with
  | [] => rfl
  | [_] => rfl
  | d :: e :: r => simp [advance, on, width, Nat.add_assoc]

theorem advance_on_nil : (on p [] begun).advance = on p [] begun := rfl

/-- The first two draws open the window on the start of the text. -/
theorem ofDraws_placed (cs : List Char) : ofDraws (placed 0 cs) = on 0 cs false := by
  match cs with
  | [] => rfl
  | [c] => simp [ofDraws, advance, on, width]
  | c :: d :: r => simp [ofDraws, advance, on, width]

theorem window_on : (on p cs begun).window = cs.take 2 := by
  match cs with
  | [] => rfl
  | [_] => rfl
  | _ :: _ :: _ => rfl

theorem skip_on (n : Nat) :
    (on p cs begun).skip n = on (p + byteWidth (cs.take n)) (cs.drop n) begun := by
  induction n generalizing p cs with
  | zero => simp [skip]
  | succ n ih =>
    cases cs with
    | nil =>
      rw [skip, advance_on_nil, ih]
      simp
    | cons c cs =>
      rw [skip, advance_on, ih]
      simp [Nat.add_assoc]

/-! ## Words -/

/-- The characters of a class are those of the text. -/
theorem takeWhile_on (f : Char → Bool) :
    (on p cs begun).takeWhile f =
      (cs.takeWhile f, on (p + byteWidth (cs.takeWhile f)) (cs.dropWhile f) begun) := by
  induction cs generalizing p with
  | nil =>
    rw [takeWhile]
    rfl
  | cons c cs ih =>
    rw [takeWhile]
    show (if f c then _ else _) = _
    by_cases hc : f c = true
    · rw [if_pos hc, advance_on, ih, List.takeWhile_cons_of_pos hc, List.dropWhile_cons_of_pos hc]
      simp [Nat.add_assoc]
    · rw [if_neg hc, List.takeWhile_cons_of_neg hc, List.dropWhile_cons_of_neg hc]
      rfl

/-- A string's value is what the lexer reads, and so is the place after it. -/
theorem stringBody_on : (on p cs begun).stringBody =
    ((readString cs).value,
      on (p + byteWidth (readString cs).text) (readString cs).rest begun) := by
  induction cs using readString.induct generalizing p with
  | case1 =>
    rw [stringBody]
    rfl
  | case2 r =>
    rw [stringBody]
    simp [advance_on, readString]
  | case3 =>
    rw [stringBody]
    simp [advance_on, readString]
  | case4 c r ih =>
    rw [stringBody]
    simp [advance_on, readString, ih, Nat.add_assoc]
  | case5 c r hquote hend hpair ih =>
    have hback : c ≠ '\\' := by
      rintro rfl
      cases r with
      | nil => exact hend rfl rfl
      | cons d ds => exact hpair d ds rfl rfl
    rw [stringBody]
    split
    · next hcur => simp at hcur
    · next hcur => exact absurd (Option.some.inj hcur) hquote
    · next hcur => exact absurd (Option.some.inj hcur) hback
    · next d hcur =>
      cases hcur
      simp [advance_on, readString, ih, Nat.add_assoc]

/-- A number is the lexer's. -/
theorem number_on : (on p cs begun).number =
    ((readNumber cs).token,
      on (p + byteWidth (readNumber cs).text) (readNumber cs).rest begun) := by
  unfold number readNumber
  rw [takeWhile_on]
  cases hdrop : cs.dropWhile Char.isDigit with
  | nil => rfl
  | cons c r =>
    by_cases hc : c = '.'
    · subst hc
      simp [advance_on, takeWhile_on, Text.byteWidth_append, Nat.add_assoc]
    · simp [hc]

/-- A name is the lexer's. -/
theorem name_on : (on p cs begun).name =
    ((readName cs).token, on (p + byteWidth (readName cs).text) (readName cs).rest begun) := by
  unfold name readName
  rw [takeWhile_on]

/-- A word is the lexer's, and so is the place after it. -/
theorem wordAt_on (c : Char) (r : List Char) : (on p (c :: r) begun).wordAt c =
    ((readWord c r).token, on (p + byteWidth (readWord c r).text) (readWord c r).rest begun) := by
  unfold wordAt readWord
  rw [window_on, startsNumber_take_two, symbol?_take_two]
  split
  · rw [string, advance_on, stringBody_on]
    simp [Nat.add_assoc]
  split
  · exact name_on
  split
  · exact number_on
  cases hsymbol : Token.symbol? (c :: r) with
  | none =>
    rw [advance_on]
    rfl
  | some entry =>
    obtain ⟨spelling, t⟩ := entry
    have hprefix := (Token.symbol?_eq_some hsymbol).1
    show (t, skip spelling.length _) = _
    rw [skip_on, ← List.prefix_iff_eq_take.mp hprefix]

theorem word_eq {r : Reader} {c : Char} (h : r.current = some c) :
    r.word = (⟨r.position, (r.wordAt c).1, (r.wordAt c).2.position⟩,
      { (r.wordAt c).2 with begun := true }) := by
  unfold word
  rw [h]

end Reader

/-! ## Steps and runs -/

namespace Lexer

open Reader (on)

/-- The window on the text behind a lexer's place. -/
def drawn (l : Lexer) : Reader := on l.offset l.rest l.begun

theorem takeWhile_drawn (l : Lexer) (f : Char → Bool) :
    l.drawn.takeWhile f = (l.rest.takeWhile f, (l.skip f).drawn) :=
  Reader.takeWhile_on f

/-- The word in the window is the word at the place. -/
theorem word_drawn (l : Lexer) : l.drawn.word = (l.word.1, l.word.2.drawn) := by
  obtain ⟨offset, rest, begun⟩ := l
  cases rest with
  | nil => rfl
  | cons c r =>
    have hword := Reader.word_eq (r := Reader.on offset (c :: r) begun) (c := c) rfl
    rw [Reader.wordAt_on] at hword
    rw [word_cons rfl]
    exact hword

/-- A step of the window is a step of the lexer. -/
theorem next_drawn (l : Lexer) : l.drawn.next = (l.next.1, l.next.2.drawn) := by
  unfold Reader.next next
  simp only [takeWhile_drawn]
  have hsome : ((l.skip isSpacing).skip isBlank).drawn.current.isSome =
      !((l.skip isSpacing).skip isBlank).rest.isEmpty := by
    show ((l.skip isSpacing).skip isBlank).rest.head?.isSome = _
    cases ((l.skip isSpacing).skip isBlank).rest <;> rfl
  rw [hsome]
  show (if 2 ≤ ((l.skip isSpacing).rest.takeWhile isBlank).count '\n' && (l.skip isSpacing).begun
    && !((l.skip isSpacing).skip isBlank).rest.isEmpty then _ else _) = _
  split
  · rfl
  · exact word_drawn _

/-- Where only blanks are left, a step ends behind them. -/
theorem next_of_blanks {l : Lexer} (h : ((l.skip isSpacing).skip isBlank).rest = []) :
    l.next = (.endAt ((l.skip isSpacing).skip isBlank).offset,
      (l.skip isSpacing).skip isBlank) := by
  unfold next
  rw [if_neg (by simp [h]), word_nil h]

/-- Nothing is left behind the end of the text. -/
theorem rest_next_of_eof {l : Lexer} (h : l.next.1.token = .eof) : l.next.2.rest = [] := by
  rcases l.next_cases with ⟨hrest, -⟩ | ⟨c, r, hrest, hnext⟩ | ⟨-, -, -, hnext⟩
  · rw [next_of_blanks hrest]
    exact hrest
  · rw [hnext, word_cons hrest] at h
    exact absurd h (readWord_ne_eof c r)
  · rw [hnext] at h
    simp at h

/-- The window gives the lexer's lexemes, and after the last one there is nothing left to draw. -/
theorem lexemes_drawn (l : Lexer) {n : Nat} (h : l.rest.length < n) :
    (l.drawn.lexemes n).map Prod.fst = l.lexemes ∧
    ∃ x last, (l.drawn.lexemes n).getLast? = some (x, last) ∧ last.undrawn = [] := by
  -- each word but the last one leaves less of the text, so `n` words are enough
  induction n generalizing l with
  | zero => exact absurd h (Nat.not_lt_zero _)
  | succ n ih =>
    rw [Reader.lexemes, next_drawn, lexemes_eq]
    by_cases heof : l.next.1.token = .eof
    · simp only [if_pos heof]
      refine ⟨rfl, l.next.1, l.next.2.drawn, rfl, ?_⟩
      rw [drawn, rest_next_of_eof heof]
      rfl
    · simp only [if_neg heof]
      have hless := length_rest_next_lt heof
      obtain ⟨hfst, x, last, hlast, hundrawn⟩ := ih l.next.2 (by omega)
      refine ⟨by simp [hfst], x, last, ?_, hundrawn⟩
      simp [List.getLast?_cons, hlast]

end Lexer

/-- Drawn from its start, a text gives its lexemes and is drawn as a whole. -/
theorem readLexemes_placed (cs : List Char) :
    (readLexemes (placed 0 cs)).map Prod.fst = (Lexer.ofChars cs).lexemes ∧
    ∃ x last, (readLexemes (placed 0 cs)).getLast? = some (x, last) ∧ last.undrawn = [] := by
  unfold readLexemes
  rw [Reader.ofDraws_placed, length_placed]
  exact (Lexer.ofChars cs).lexemes_drawn (Nat.lt_succ_self _)

end Scriptlet
