import Scriptlet.Eval.Store

/-!
# `Eval.Run` — runs of pieces of a program

A run starts from a store. It is done with a value, leaves the function around it with a value, fails
with a cause, or is starved because its budget was too small. Whatever was stored or printed before
the end stays.

## Contents
- `Outcome`, `Run` and its monad.
- `Run.fail`, `Run.leave`, `Run.ofExcept`: ends; `Run.call`: a function's body, where leaving ends.
- `Run.settle`: every end as a value, for a host that looks at pieces of a program.
-/

namespace Scriptlet

/-- How a run ends. -/
inductive Outcome (α : Type) where
  | done (value : α) (store : Store)
  | left (value : Value) (store : Store)
  | failed (error : RuntimeError) (store : Store)
  | starved

/-- A piece of a program at work. -/
def Run (α : Type) : Type := Store → Outcome α

namespace Run

/-- One run after another; the second depends on the first one's value. -/
@[always_inline, inline] def bind {α β : Type} (r : Run α) (f : α → Run β) : Run β := fun s =>
  match r s with
  | .done a s' => f a s'
  | .left v s' => .left v s'
  | .failed e s' => .failed e s'
  | .starved => .starved

@[always_inline] instance : Monad Run where
  pure a := fun s => .done a s
  bind := Run.bind

@[simp] theorem pure_apply {α : Type} (a : α) (s : Store) : (pure a : Run α) s = .done a s := rfl

theorem bind_apply {α β : Type} (r : Run α) (f : α → Run β) (s : Store) :
    (r >>= f) s = match r s with
      | .done a s' => f a s'
      | .left v s' => .left v s'
      | .failed e s' => .failed e s'
      | .starved => .starved := rfl

theorem bind_done {α β : Type} {r : Run α} {f : α → Run β} {s s' : Store} {a : α}
    (h : r s = .done a s') : (r >>= f) s = f a s' := by simp [bind_apply, h]

/-- A run that is done was done with its first part. -/
theorem bind_eq_done {α β : Type} {r : Run α} {f : α → Run β} {s t : Store} {b : β}
    (h : (r >>= f) s = .done b t) : ∃ a s', r s = .done a s' ∧ f a s' = .done b t := by
  rw [bind_apply] at h
  cases hr : r s with
  | done a s' =>
    rw [hr] at h
    exact ⟨a, s', rfl, h⟩
  | left v s' | failed e s' | starved =>
    rw [hr] at h
    cases h

/-! ## Ends -/

/-- The run that has no budget left. -/
def starve {α : Type} : Run α := fun _ => .starved

/-- Fails. -/
def fail {α : Type} (e : RuntimeError) : Run α := fun s => .failed e s

/-- Leaves the function around with a value. -/
def leave {α : Type} (v : Value) : Run α := fun s => .left v s

/-- A result or a failure. -/
def ofExcept {α : Type} : Except RuntimeError α → Run α
  | .ok a => pure a
  | .error e => fail e

/-- The body of a function: leaving it ends it with the value. -/
def call (r : Run Value) : Run Value := fun s =>
  match r s with
  | .left v s' => .done v s'
  | o => o

/-- Every end but a starved one as a value. -/
def settle (r : Run Value) : Run Value := fun s =>
  match r s with
  | .left v s' => .done (.returned v) s'
  | .failed e s' => .done (.error e.message) s'
  | o => o

/-! ## The store -/

/-- Looks at the store. -/
def look {α : Type} (f : Store → α) : Run α := fun s => .done (f s) s

/-- Changes the store. -/
def change {α : Type} (f : Store → α × Store) : Run α := fun s =>
  let (a, s') := f s
  .done a s'

end Run

end Scriptlet
