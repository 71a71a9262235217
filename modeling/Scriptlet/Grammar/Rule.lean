import Scriptlet.Grammar.State

/-!
# `Grammar.Rule` — reading one construct

A rule starts at a place, takes lexemes and gives a result, or stops at a fault. Rules that call each
other get a budget; one that runs out of it is `starved`, which is neither a result nor a fault.

## Contents
- `Reply`, `Rule` and its monad.
- `look`, `take`, `expect`, `expectName` and the other rules for single lexemes.
- `listOf`: items with commas between them up to a closing token.
-/

namespace Scriptlet

/-- How a rule ends. After a fault the state stays what the rule left. -/
inductive Reply (α : Type) where
  | ok (value : α) (state : State)
  | error (fault : SyntaxError) (state : State)
  | starved

/-- A rule of the grammar. -/
def Rule (α : Type) : Type := State → Reply α

namespace Rule

/-- One rule after another; the second depends on the first one's result. -/
@[inline] def bind {α β : Type} (r : Rule α) (f : α → Rule β) : Rule β := fun s =>
  match r s with
  | .ok a s' => f a s'
  | .error e s' => .error e s'
  | .starved => .starved

instance : Monad Rule where
  pure a := fun s => .ok a s
  bind := Rule.bind

@[simp] theorem pure_apply {α : Type} (a : α) (s : State) :
    (pure a : Rule α) s = .ok a s := rfl

theorem bind_apply {α β : Type} (r : Rule α) (f : α → Rule β) (s : State) :
    (r >>= f) s = match r s with
      | .ok a s' => f a s'
      | .error e s' => .error e s'
      | .starved => .starved := rfl

theorem bind_ok {α β : Type} {r : Rule α} {f : α → Rule β} {s s' : State} {a : α}
    (h : r s = .ok a s') : (r >>= f) s = f a s' := by simp [bind_apply, h]

/-! ## Single lexemes -/

/-- The rule that has no budget left. -/
def starve {α : Type} : Rule α := fun _ => .starved

/-- Stops at a fault. -/
def fail {α : Type} (fault : Fault) (span : Span) : Rule α := fun s => .error ⟨fault, span⟩ s

/-- The lexeme in front, which stays. -/
def look : Rule Lexeme := fun s => .ok s.current s

/-- Takes the lexeme in front, whatever it is. -/
def take : Rule Lexeme := fun s => .ok s.current s.step

/-- Moves over the blank lines in front. -/
def skipBlankLines : Rule Unit := fun s => .ok () s.skipBlankLines

/-- Takes the lexeme in front if it is of the kind of `t`. -/
def skipOptional (t : Token) : Rule Unit := fun s =>
  .ok () (if s.currentIs t then s.step else s)

/-- Takes a token of the kind of `t`, the only choice here. -/
def expect (t : Token) : Rule Span := fun s =>
  if s.currentIs t then .ok s.current.span s.step
  else .error ⟨.unexpected (.token t.kind) s.current.token.kind, s.current.span⟩ s

/-! ### What comes after a single lexeme -/

theorem look_bind {α : Type} (f : Lexeme → Rule α) (s : State) :
    (look >>= f) s = f s.current s := rfl

theorem take_bind {α : Type} (f : Lexeme → Rule α) (s : State) :
    (take >>= f) s = f s.current s.step := rfl

theorem skipBlankLines_bind {α : Type} (f : Unit → Rule α) (s : State) :
    (skipBlankLines >>= f) s = f () s.skipBlankLines := rfl

/-! ## Lists -/

/-- Items after the first one, each behind a comma. -/
def moreItems {α : Type} (item : Rule α) : Nat → Rule (List α)
  | 0 => starve
  | budget + 1 => do
    skipBlankLines
    if (← look).token = .comma then
      let _ ← take
      skipBlankLines
      let first ← item
      let others ← moreItems item budget
      pure (first :: others)
    else pure []

/-- Items with commas between them up to the closing token, which is taken too. Blank lines around
    the items do not count. Gives the items and the end of the closing token. -/
def listOf {α : Type} (close : Token) (item : Rule α) (budget : Nat) : Rule (List α × Nat) := do
  skipBlankLines
  if (← look).token.kind = close.kind then
    let last ← expect close
    pure ([], last.stop)
  else
    let first ← item
    let others ← moreItems item budget
    let last ← expect close
    pure (first :: others, last.stop)

end Rule

end Scriptlet
