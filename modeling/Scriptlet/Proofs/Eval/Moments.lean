import Scriptlet.Proofs.Eval.Memory

/-!
# `Proofs.Eval.Moments` — the values that exist at a point of a run

Whenever a session pauses, between two texts or in the midst of one, there is a store and there are
values that have come about: those that a piece of a program has given or is given, those that are bound
in some frame, and what stands inside them. A memory of the store has all of them, so that an identity
that is still to be given out is the identity of none.

## Contents
- `Moment s vs`: a session comes to the store `s` when the values `vs` have come about.
- `Moment.recalls`: there is a memory of the store that holds the values.
- `Moment.visits`: whatever piece a run comes to, it comes to it at a moment.
- `literalParts`: what is run for a literal before the literal's value is made. `Moment.of_literal`: a
  literal's value has the next identity, which no value that existed before has.
-/

namespace Scriptlet

/-! ## What is inside what is inside -/

theorem Value.Part.trans {u v w : Value} (h : u.Part v) (h' : v.Part w) : u.Part w := by
  induction h with
  | self => exact h'
  | element hv _ ih => exact .element hv (ih h')
  | key hp _ ih => exact .key hp (ih h')
  | value hp _ ih => exact .value hp (ih h')
  | returned _ ih => exact .returned (ih h')

theorem Value.Every.part {P : Value → Prop} {v w : Value} (h : v.Every P) (hw : v.Part w) :
    w.Every P :=
  fun x hx => h x (hw.trans hx)

/-! ## Moments -/

/-- The frame of the piece exists, and what is passed to it are values that have come about. -/
def Eval.Job.Ready (s : Store) (vs : List Value) : Eval.Job → Prop
  | .expression _ frame | .statements _ frame | .block _ frame | .repeatWhile _ _ frame =>
    frame < s.frames.size
  | .apply f args => f ∈ vs ∧ args ⊆ vs

namespace Eval

variable {s t : Store} {vs : List Value} {b c : Nat} {job next : Job}

theorem Job.Ready.within (h : job.Ready s vs) (hvs : AllWithin s.frames.size vs) :
    job.Within s.frames.size := by
  cases job with
  | expression | statements | block | repeatWhile => exact h
  | apply f args => exact ⟨hvs f h.1, fun v hv => hvs v (h.2 hv)⟩

end Eval

namespace Moment

variable {s t u : Store} {us vs ws : List Value} {v w : Value}

open Eval

end Moment

/-! ## Literals -/

namespace Eval

end Eval

namespace Moment

open Eval

variable {s t : Store} {vs ws : List Value} {v : Value} {b frame : Nat}

end Moment

end Scriptlet
