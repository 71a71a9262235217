import Scriptlet.Text.Escaped
import Scriptlet.Text.Width
import Scriptlet.Token.Basic

/-!
# `Token.Lexer` — from characters to lexemes

A lexer is a place in a text. `Lexer.next` skips blanks and reads the longest word that stands there;
at the end of the text it answers `eof` for ever. A run of blanks that holds two line breaks or more
becomes a word of its own, but only between two others: never before the first, never after the last.

## Contents
- `readWord`: the word at the front of a text that does not start with a blank. The characters it
  covers and those it leaves make up the text (`readWord_append`), and it covers at least one
  (`readWord_text_ne_nil`).
- `Lexer`, `Lexer.next`: reading with positions. A word leaves less text than it found
  (`length_rest_next_lt`).
- `tokenize`: all lexemes of a text, up to its end.
-/

namespace Scriptlet

/-! ## Character classes -/

/-- A blank that ends no line. -/
def isSpacing (c : Char) : Bool := c = ' ' || c = '\t' || c = '\r'

/-- A blank: spaces, tabs, carriage returns and line breaks. -/
def isBlank (c : Char) : Bool := isSpacing c || c = '\n'

/-- An ASCII letter or the underscore; names are made of these alone. -/
def isNameChar (c : Char) : Bool := c.isAlpha || c = '_'

/-! ## One word -/

/-- A word read from the front of a text: the characters it covers and those after it. -/
structure Reading where
  token : Token
  text : List Char
  rest : List Char

/-- The value of a string and the characters of its written form after the opening quote. -/
structure StringReading where
  value : List Char
  text : List Char
  rest : List Char

/-- What a backslash and the character after it stand for. Where the pair has no meaning of its own
    it stands for itself. -/
def unescape : Char → List Char
  | 'n' => ['\n']
  | 't' => ['\t']
  | '"' => ['"']
  | '\\' => ['\\']
  | c => ['\\', c]

/-- Reads a string after its opening quote. The end of the text closes it as a quote does. -/
def readString : List Char → StringReading
  | [] => ⟨[], [], []⟩
  | '"' :: r => ⟨[], ['"'], r⟩
  | '\\' :: [] => ⟨['\\'], ['\\'], []⟩
  | '\\' :: c :: r =>
    let body := readString r
    ⟨unescape c ++ body.value, '\\' :: c :: body.text, body.rest⟩
  | c :: r =>
    let body := readString r
    ⟨c :: body.value, c :: body.text, body.rest⟩

/-- Reads a number: digits and, where a point follows them, the point and the digits after it. -/
def readNumber (cs : List Char) : Reading :=
  let whole := cs.takeWhile Char.isDigit
  match cs.dropWhile Char.isDigit with
  | '.' :: r =>
    let text := whole ++ '.' :: r.takeWhile Char.isDigit
    ⟨.float (String.ofList text), text, r.dropWhile Char.isDigit⟩
  | r => ⟨.int (String.ofList whole), whole, r⟩

/-- Reads a name, which may be a keyword. -/
def readName (cs : List Char) : Reading :=
  let text := cs.takeWhile isNameChar
  let name := String.ofList text
  ⟨(Token.keyword? name).getD (.ident name), text, cs.dropWhile isNameChar⟩

/-- Whether a number starts with these characters: a digit, or a point with a digit after it. -/
def startsNumber : List Char → Bool
  | '.' :: d :: _ => d.isDigit
  | c :: _ => c.isDigit
  | [] => false

/-- Reads the word that starts with `c`. A character that starts none is a word by itself. -/
def readWord (c : Char) (r : List Char) : Reading :=
  if c = '"' then
    let body := readString r
    ⟨.str (String.ofList body.value), c :: body.text, body.rest⟩
  else if isNameChar c then readName (c :: r)
  else if startsNumber (c :: r) then readNumber (c :: r)
  else match Token.symbol? (c :: r) with
    | some (spelling, t) => ⟨t, spelling, (c :: r).drop spelling.length⟩
    | none => ⟨.illegal (String.singleton c), [c], r⟩

/-! ### A word and what is left make up the text -/

theorem readString_append (cs : List Char) :
    (readString cs).text ++ (readString cs).rest = cs := by
  fun_induction readString cs <;> simp_all +zetaDelta

theorem readNumber_append (cs : List Char) :
    (readNumber cs).text ++ (readNumber cs).rest = cs := by
  unfold readNumber
  split
  · next r h =>
    simp only [List.append_assoc, List.cons_append, List.takeWhile_append_dropWhile]
    rw [← h, List.takeWhile_append_dropWhile]
  · exact List.takeWhile_append_dropWhile

theorem readName_append (cs : List Char) :
    (readName cs).text ++ (readName cs).rest = cs :=
  List.takeWhile_append_dropWhile

/-- The characters of a word followed by the rest are the text it was read from. -/
theorem readWord_append (c : Char) (r : List Char) :
    (readWord c r).text ++ (readWord c r).rest = c :: r := by
  unfold readWord
  split
  · simpa using readString_append r
  split
  · exact readName_append _
  split
  · exact readNumber_append _
  split
  · next spelling t h =>
    obtain ⟨tail, ht⟩ := (Token.symbol?_eq_some h).1
    simp [← ht]
  · rfl

/-- A word has at least one character. -/
theorem readWord_text_ne_nil (c : Char) (r : List Char) : (readWord c r).text ≠ [] := by
  unfold readWord
  split
  · simp
  split
  · next h => simp [readName, h]
  split
  · next h =>
    unfold readNumber
    split
    · simp
    · next hdot =>
      by_cases hc : c.isDigit
      · simp [hc]
      · have : c ≠ '.' := fun hcd => hdot r (by simp [hcd])
        unfold startsNumber at h
        split at h <;> simp_all
  split
  · next spelling t h =>
    have := (Token.symbol?_eq_some h).2.1
    exact fun h0 => by simp_all
  · simp

/-! ## Reading with positions -/

/-- A place in a text: the bytes before it, the characters after it, and whether a word was read
    already. -/
structure Lexer where
  offset : Nat
  rest : List Char
  begun : Bool
deriving Repr

namespace Lexer

/-- The start of a text. -/
def ofChars (cs : List Char) : Lexer := ⟨0, cs, false⟩

/-- Moves over characters at the front of the rest. -/
def advance (l : Lexer) (text rest : List Char) : Lexer :=
  { l with offset := l.offset + Text.byteWidth text, rest := rest }

/-- Moves over the characters of a class. -/
def skip (l : Lexer) (p : Char → Bool) : Lexer :=
  l.advance (l.rest.takeWhile p) (l.rest.dropWhile p)

/-- The word at the place, or the end of the text; no blank stands there. -/
def word (l : Lexer) : Lexeme × Lexer :=
  match l.rest with
  | [] => (.endAt l.offset, l)
  | c :: r =>
    let w := readWord c r
    let l' := l.advance w.text w.rest
    (⟨l.offset, w.token, l'.offset⟩, { l' with begun := true })

/-- The next word and the place after it. Blanks on the line are skipped first; what is left of the
    blanks starts with a line break, and is a word where it holds another one and stands between two
    words. -/
def next (l : Lexer) : Lexeme × Lexer :=
  let start := l.skip isSpacing
  let after := start.skip isBlank
  if 2 ≤ (start.rest.takeWhile isBlank).count '\n' && start.begun && !after.rest.isEmpty then
    (⟨start.offset, .blankLine, after.offset⟩, after)
  else after.word

@[simp] theorem rest_advance (l : Lexer) (text rest : List Char) :
    (l.advance text rest).rest = rest := rfl

theorem length_rest_skip_le (l : Lexer) (p : Char → Bool) :
    (l.skip p).rest.length ≤ l.rest.length :=
  (List.dropWhile_suffix p).length_le

/-- A word takes characters away from the text. -/
theorem length_rest_word_lt {l : Lexer} (h : l.rest ≠ []) :
    l.word.2.rest.length < l.rest.length := by
  unfold word
  split
  · contradiction
  · next c r hr =>
    have happ := congrArg List.length (readWord_append c r)
    have hpos := List.length_pos_iff.mpr (readWord_text_ne_nil c r)
    simp only [List.length_append] at happ
    simp only [rest_advance, hr]
    omega

/-- Every word but the last, the end of the text, leaves less text than it found. -/
theorem length_rest_next_lt {l : Lexer} (h : l.next.1.token ≠ .eof) :
    l.next.2.rest.length < l.rest.length := by
  have h1 := length_rest_skip_le l isSpacing
  have h2 := length_rest_skip_le (l.skip isSpacing) isBlank
  unfold next at h ⊢
  dsimp only at h ⊢
  split
  · next hb =>
    simp only [Bool.and_eq_true, decide_eq_true_eq] at hb
    have hne : (l.skip isSpacing).rest.takeWhile isBlank ≠ [] := by
      intro h0
      simp [h0] at hb
    have := congrArg List.length
      (List.takeWhile_append_dropWhile (p := isBlank) (l := (l.skip isSpacing).rest))
    have hpos := List.length_pos_iff.mpr hne
    simp only [List.length_append] at this
    simp only [skip, rest_advance] at h1 h2 this hpos ⊢
    omega
  · next hb =>
    rw [if_neg hb] at h
    have hne : ((l.skip isSpacing).skip isBlank).rest ≠ [] := by
      intro h0
      simp [word, h0, Lexeme.endAt] at h
    have := length_rest_word_lt hne
    omega

/-- The lexemes from here on, the end of the text being the last. -/
def lexemes (l : Lexer) : List Lexeme :=
  match _h : l.next with
  | (x, after) => if x.token = .eof then [x] else x :: after.lexemes
termination_by l.rest.length
decreasing_by
  have hnext : l.next = (x, after) := ‹_›
  simpa [hnext] using length_rest_next_lt (l := l) (by rw [hnext]; assumption)

/-- The place as text: its position, that of the next character, and the two characters there. -/
def describe (l : Lexer) : String :=
  let shown : Option Char → String
    | some c => "Some(" ++ Text.escapedOne c ++ ")"
    | none => "None"
  let width := (l.rest.head?.map Char.utf8Size).getD 0
  "Lexer \x7b\n\tposition: " ++ toString l.offset ++ ",\n\tnext_position: "
    ++ toString (l.offset + width) ++ ",\n\tch: " ++ shown l.rest.head? ++ ", next_ch: "
    ++ shown l.rest.tail.head? ++ "\n\x7d"

end Lexer

/-- The lexemes of a text, the last one being its end. -/
def tokenize (source : String) : List Lexeme := (Lexer.ofChars source.toList).lexemes

end Scriptlet
