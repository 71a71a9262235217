import Scriptlet.Grammar.Fault

/-!
# `Grammar.State` — a place in a list of lexemes

The rules of the grammar look at the lexeme in front, take it away, and note the faults they recover
from. Behind the last lexeme stands the end of the text, as often as it is asked for.

## Contents
- `State`: the lexemes left, where the last one taken ended, and the faults noted.
- `State.step`, `State.skipBlankLines`: moving on.
- `State.recover`: moving past a broken statement.

No operation adds a lexeme; `State.Suffix` and the lemmas on it say so.
-/

namespace Scriptlet

/-- The lexemes left, the end of the last one taken, and the faults noted so far. -/
structure State where
  rest : List Lexeme
  stop : Nat
  errors : List SyntaxError
deriving Repr

namespace State

/-- The start of a list of lexemes. -/
def ofLexemes (xs : List Lexeme) : State := ⟨xs, 0, []⟩

/-- The lexeme in front, the end of the text where none is left. -/
def current (s : State) : Lexeme := s.rest.head?.getD (.endAt s.stop)

/-- The lexeme after the one in front. -/
def following (s : State) : Lexeme := s.rest.tail.head?.getD (.endAt s.current.stop)

/-- Takes the lexeme in front away. -/
def step (s : State) : State :=
  match s.rest with
  | [] => s
  | x :: xs => { s with rest := xs, stop := x.stop }

/-- Whether the lexeme in front is of the kind of `t`, whatever text it carries. -/
def currentIs (s : State) (t : Token) : Bool := s.current.token.kind = t.kind

/-- Notes a fault. -/
def note (s : State) (e : SyntaxError) : State := { s with errors := s.errors ++ [e] }

/-- How tightly the lexeme in front ties to what stands before it. -/
def precedence (s : State) : Precedence := s.current.token.precedence

/-! ## Moving over several lexemes -/

/-- Lexemes left and the end of the last one taken. -/
abbrev Left := List Lexeme × Nat

/-- Moves over the blank lines in front. -/
def dropBlankLines : List Lexeme → Nat → Left
  | [], stop => ([], stop)
  | x :: xs, stop =>
    if x.token = .blankLine then dropBlankLines xs x.stop else (x :: xs, stop)

/-- Moves over the blank lines in front. -/
def skipBlankLines (s : State) : State :=
  let (rest, stop) := dropBlankLines s.rest s.stop
  { s with rest, stop }

/-- Moves past what is left of a broken statement: up to and including the next semicolon, or up to a
    blank line or the end of the text. Braces opened on the way are passed with all they hold, `depth`
    counting those still open. Inside a block the brace that closes it is left in place. -/
def dropBroken (inBlock : Bool) : Nat → List Lexeme → Nat → Left
  | _, [], stop => ([], stop)
  | depth, x :: xs, stop =>
    match x.token with
    | .eof => (x :: xs, stop)
    | .blankLine => if depth = 0 then (x :: xs, stop) else dropBroken inBlock depth xs x.stop
    | .semicolon => if depth = 0 then (xs, x.stop) else dropBroken inBlock depth xs x.stop
    | .leftBrace => dropBroken inBlock (depth + 1) xs x.stop
    | .rightBrace =>
      match depth with
      | 0 => if inBlock then (x :: xs, stop) else dropBroken inBlock 0 xs x.stop
      | depth + 1 => dropBroken inBlock depth xs x.stop
    | _ => dropBroken inBlock depth xs x.stop

/-- Moves past what is left of a broken statement. -/
def recover (inBlock : Bool) (s : State) : State :=
  let (rest, stop) := dropBroken inBlock 0 s.rest s.stop
  { s with rest, stop }

/-! ## No lexeme is added -/

theorem rest_step (s : State) : s.step.rest = s.rest.tail := by
  unfold step
  split <;> simp_all

theorem dropBlankLines_suffix (xs : List Lexeme) (stop : Nat) :
    (dropBlankLines xs stop).1 <:+ xs := by
  fun_induction dropBlankLines xs stop with
  | case1 => exact List.suffix_refl _
  | case2 _ _ _ _ ih => exact ih.trans (List.suffix_cons _ _)
  | case3 => exact List.suffix_refl _

theorem dropBroken_suffix (inBlock : Bool) (depth : Nat) (xs : List Lexeme) (stop : Nat) :
    (dropBroken inBlock depth xs stop).1 <:+ xs := by
  fun_induction dropBroken inBlock depth xs stop <;>
    first
      | exact List.suffix_refl _
      | exact List.suffix_cons _ _
      | exact List.IsSuffix.trans ‹_› (List.suffix_cons _ _)

theorem rest_skipBlankLines_suffix (s : State) : s.skipBlankLines.rest <:+ s.rest :=
  dropBlankLines_suffix s.rest s.stop

theorem rest_recover_suffix (inBlock : Bool) (s : State) :
    (s.recover inBlock).rest <:+ s.rest :=
  dropBroken_suffix inBlock 0 s.rest s.stop

end State

end Scriptlet
