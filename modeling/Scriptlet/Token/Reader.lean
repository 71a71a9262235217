import Scriptlet.Token.Lexer

/-!
# `Token.Reader` — lexemes from characters that are drawn one by one

A reader finds the lexemes of a text that is not at hand as a whole. It draws characters from a source
when it needs them and sees two at a time, the current one and the upcoming one. A draw can give
nothing: at the end of the source, or where the source holds no character. To the reader the text ends
where the current character is missing.

A draw that gives a character also says where it stands. The reader takes its positions from the
source as long as that gives characters; after that it counts on by the width of the last one.

## Contents
- `counted`: draws with positions that are counted as the draws are made. `indexed`: the draws of a
  text that is at hand, where positions are known by what is left of it.
- `Reader`, `Reader.advance`: the window and how it moves. Moving over a character leaves less to read
  (`size_advance_lt`).
- `Reader.takeWhile`, `Reader.string`, `Reader.number`, `Reader.name`: words, in the lexer's classes.
- `Reader.next`, `Reader.lexemes`: reading with positions; `Reader.undrawn` tells what the source
  still holds.
-/

namespace Scriptlet

/-! ## Draws and where they stand -/

/-- A character with the bytes before it, or nothing. -/
abbrev PlacedDraw := Option (Nat × Char)

/-- Draws from the byte `position` on, each character with the bytes of those drawn before it. A draw
    that gives nothing takes no room. -/
def counted (position : Nat) : List (Option Char) → List PlacedDraw
  | [] => []
  | none :: draws => none :: counted position draws
  | some c :: draws => some (position, c) :: counted (position + c.utf8Size) draws

theorem length_counted (position : Nat) (draws : List (Option Char)) :
    (counted position draws).length = draws.length := by
  fun_induction counted position draws <;> simp_all

/-- The draws of the last characters of a text of `total` bytes. What is left with a character tells
    what lies before it. -/
def indexedFrom (total : Nat) : List Char → List PlacedDraw
  | [] => []
  | c :: cs => some (total - Text.byteWidth (c :: cs), c) :: indexedFrom total cs

/-- The draws of a text that is at hand as a whole. -/
def indexed (source : String) : List PlacedDraw := indexedFrom source.utf8ByteSize source.toList

/-! ## The window -/

/-- A window of two characters on a source of draws: the positions of its two characters, the
    characters, the draws not made, and whether a word was read already. -/
structure Reader where
  position : Nat
  upcomingPosition : Nat
  current : Option Char
  upcoming : Option Char
  undrawn : List PlacedDraw
  begun : Bool
deriving Repr

namespace Reader

/-- The width of a character, none where there is no character. -/
def width (c : Option Char) : Nat := (c.map Char.utf8Size).getD 0

/-- Moves the window by one character: what is drawn comes in behind the upcoming one. Where nothing
    is drawn, the position behind the upcoming one is known by its width. -/
def advance (r : Reader) : Reader :=
  let drawn := r.undrawn.head?.join
  { r with
    position := r.upcomingPosition
    upcomingPosition := (drawn.map Prod.fst).getD (r.upcomingPosition + width r.upcoming)
    current := r.upcoming
    upcoming := drawn.map Prod.snd
    undrawn := r.undrawn.tail }

/-- The start of a source, with its first two draws in the window. -/
def ofDraws (source : List PlacedDraw) : Reader :=
  let empty : Reader := ⟨0, 0, none, none, source, false⟩
  empty.advance.advance

/-- How much there is to read at most. -/
def size (r : Reader) : Nat :=
  r.undrawn.length + r.upcoming.isSome.toNat + r.current.isSome.toNat

theorem size_advance_le (r : Reader) : r.advance.size ≤ r.size := by
  obtain ⟨_, _, current, upcoming, undrawn, _⟩ := r
  cases undrawn with
  | nil => simp [advance, size]
  | cons d ds =>
    have := Bool.toNat_le d.isSome
    simp only [advance, size, List.head?_cons, Option.join_some, Option.isSome_map, List.tail_cons,
      List.length_cons]
    omega

/-- Moving over a character leaves less to read. -/
theorem size_advance_lt {r : Reader} {c : Char} (h : r.current = some c) :
    r.advance.size < r.size := by
  obtain ⟨_, _, current, upcoming, undrawn, _⟩ := r
  subst h
  cases undrawn with
  | nil => simp [advance, size]
  | cons d ds =>
    have := Bool.toNat_le d.isSome
    simp only [advance, size, List.head?_cons, Option.join_some, Option.isSome_map, List.tail_cons,
      List.length_cons, Option.isSome_some, Bool.toNat_true]
    omega

/-! ## Words -/

/-- The characters of a class from here on, and the place after them. -/
def takeWhile (p : Char → Bool) (r : Reader) : List Char × Reader :=
  match _h : r.current with
  | some c =>
    if p c then
      let (cs, after) := r.advance.takeWhile p
      (c :: cs, after)
    else ([], r)
  | none => ([], r)
termination_by r.size
decreasing_by exact size_advance_lt _h

/-- The value of a string after its opening quote, and the place after it. The end of the text closes
    it as a quote does. -/
def stringBody (r : Reader) : List Char × Reader :=
  match _h : r.current with
  | none => ([], r)
  | some '"' => ([], r.advance)
  | some '\\' =>
    match r.advance.current with
    | none => (['\\'], r.advance)
    | some c =>
      let (cs, after) := r.advance.advance.stringBody
      (unescape c ++ cs, after)
  | some c =>
    let (cs, after) := r.advance.stringBody
    (c :: cs, after)
termination_by r.size
decreasing_by
  · exact Nat.lt_of_le_of_lt (size_advance_le _) (size_advance_lt _h)
  · exact size_advance_lt _h

/-- A string from its opening quote. -/
def string (r : Reader) : Token × Reader :=
  let (cs, after) := r.advance.stringBody
  (.str (String.ofList cs), after)

/-- A number: digits and, where a point follows them, the point and the digits after it. -/
def number (r : Reader) : Token × Reader :=
  let (whole, after) := r.takeWhile Char.isDigit
  if after.current = some '.' then
    let (fraction, last) := after.advance.takeWhile Char.isDigit
    (.float (String.ofList (whole ++ '.' :: fraction)), last)
  else (.int (String.ofList whole), after)

/-- A name, which may be a keyword. -/
def name (r : Reader) : Token × Reader :=
  let (cs, after) := r.takeWhile isNameChar
  let word := String.ofList cs
  ((Token.keyword? word).getD (.ident word), after)

/-- The characters in the window. -/
def window (r : Reader) : List Char :=
  match r.current with
  | none => []
  | some c => c :: r.upcoming.toList

/-- Moves over `n` characters. -/
def skip : Nat → Reader → Reader
  | 0, r => r
  | n + 1, r => skip n r.advance

/-- The word that starts with the current character `c`, and the place after it. -/
def wordAt (r : Reader) (c : Char) : Token × Reader :=
  if c = '"' then r.string
  else if isNameChar c then r.name
  else if startsNumber r.window then r.number
  else match Token.symbol? r.window with
    | some (spelling, t) => (t, r.skip spelling.length)
    | none => (.illegal (String.singleton c), r.advance)

/-! ## Reading with positions -/

/-- The word at the place, or the end of the text; no blank stands there. -/
def word (r : Reader) : Lexeme × Reader :=
  match r.current with
  | none => (.endAt r.position, r)
  | some c =>
    let (t, after) := r.wordAt c
    (⟨r.position, t, after.position⟩, { after with begun := true })

/-- The next word and the place after it; the rule for blank lines is the lexer's. -/
def next (r : Reader) : Lexeme × Reader :=
  let (_, start) := r.takeWhile isSpacing
  let (blanks, after) := start.takeWhile isBlank
  if 2 ≤ blanks.count '\n' && start.begun && after.current.isSome then
    (⟨start.position, .blankLine, after.position⟩, after)
  else after.word

/-- The lexemes from here on, the end of the text being the last, each with the place after it; at
    most `n` of them. -/
def lexemes : Nat → Reader → List (Lexeme × Reader)
  | 0, _ => []
  | n + 1, r =>
    let (x, after) := r.next
    if x.token = .eof then [(x, after)] else (x, after) :: lexemes n after

end Reader

/-- The lexemes of a source of draws, each with the reader's place after it. A lexeme takes at least
    one draw, and the end of the text comes after them. -/
def readLexemes (source : List PlacedDraw) : List (Lexeme × Reader) :=
  (Reader.ofDraws source).lexemes (source.length + 1)

end Scriptlet
