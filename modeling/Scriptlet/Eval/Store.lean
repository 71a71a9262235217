import Scriptlet.Eval.Builtins
import Scriptlet.Text.Escaped

/-!
# `Eval.Store` — what lasts while a program runs

## Contents
- `Frame`: names with their values, and the frame around it.
- `Store`: all frames, numbered in the order in which they were opened, the next free identity, and
  what was printed.
- `Store.chain`: a frame and those around it, from the inside out. Looking a name up and changing it
  go through the chain: `Store.get?`, `Store.holder?`, `Store.assign?`.
- `Store.make`: carries out a builtin function's answer.
-/

namespace Scriptlet

/-! ## Frames -/

/-- Names with their values, and the number of the frame around it. -/
structure Frame where
  bindings : List (String × Value)
  outer : Option Nat

namespace Frame

/-- The value of a name. -/
def get? (f : Frame) (name : String) : Option Value := f.bindings.lookup name

/-- The names bound. -/
def names (f : Frame) : List String := f.bindings.map Prod.fst

/-- Bindings with a name bound to a value. A name that is there keeps its place. -/
def setBinding (name : String) (v : Value) : List (String × Value) → List (String × Value)
  | [] => [(name, v)]
  | (n, w) :: rest =>
    if n = name then (n, v) :: rest else (n, w) :: setBinding name v rest

/-- The frame with a name bound to a value. -/
def set (f : Frame) (name : String) (v : Value) : Frame :=
  { f with bindings := setBinding name v f.bindings }

/-- The frame as text: its names in order, and whether there is a frame around it. -/
def describe (f : Frame) : String :=
  "Environment \x7b names: " ++ Text.escapedList (f.names.mergeSort fun a b => a ≤ b)
    ++ ", outer: " ++ (if f.outer.isSome then "true" else "false") ++ " \x7d"

end Frame

/-! ## The store -/

/-- All frames, the next identity, and the text printed so far. -/
structure Store where
  frames : Array Frame
  fresh : Nat
  output : String

namespace Store

/-- Nothing opened, made or printed. -/
def empty : Store := ⟨#[], 0, ""⟩

/-- Opens a frame inside another one, or one that stands alone. -/
def openFrame (s : Store) (outer : Option Nat) : Nat × Store :=
  (s.frames.size, { s with frames := s.frames.push ⟨[], outer⟩ })

/-- The frame around a frame. -/
def outer? (s : Store) (i : Nat) : Option Nat := s.frames[i]?.bind Frame.outer

/-- At most `n` frames from `i` outwards. -/
def chainFrom (s : Store) : Nat → Nat → List Nat
  | 0, _ => []
  | n + 1, i =>
    match s.outer? i with
    | none => [i]
    | some j => i :: chainFrom s n j

/-- The frame and those around it, from the inside out. Every frame was opened after the one around
    it, so there are no more of them than its number says. -/
def chain (s : Store) (i : Nat) : List Nat := s.chainFrom (i + 1) i

/-- Chains depend only on which frame lies around which. -/
theorem chain_congr {s t : Store} (h : ∀ k, t.outer? k = s.outer? k) (i : Nat) :
    t.chain i = s.chain i := by
  have hfrom : ∀ n i, t.chainFrom n i = s.chainFrom n i := by
    intro n
    induction n with
    | zero => exact fun i => rfl
    | succ n ih =>
      intro i
      unfold chainFrom
      rw [h]
      cases s.outer? i with
      | none => rfl
      | some k => exact congrArg (i :: ·) (ih k)
  exact hfrom (i + 1) i

/-- The value of a name in one frame. -/
def getIn? (s : Store) (name : String) (i : Nat) : Option Value :=
  s.frames[i]?.bind fun f => f.get? name

/-- The value of a name: that of the innermost frame of the chain which binds it. -/
def get? (s : Store) (i : Nat) (name : String) : Option Value :=
  (s.chain i).findSome? (s.getIn? name)

/-- Binds a name in a frame. -/
def set (s : Store) (i : Nat) (name : String) (v : Value) : Store :=
  { s with frames := s.frames.modify i fun f => f.set name v }

/-- Binds names in a frame, one after another. -/
def setAll (s : Store) (i : Nat) : List (String × Value) → Store
  | [] => s
  | (name, v) :: rest => (s.set i name v).setAll i rest

/-- The innermost frame of the chain which binds a name. -/
def holder? (s : Store) (i : Nat) (name : String) : Option Nat :=
  (s.chain i).find? fun j => (s.getIn? name j).isSome

/-- Changes the value of a name in the innermost frame of the chain which binds it; nothing where
    none does. -/
def assign? (s : Store) (i : Nat) (name : String) (v : Value) : Option Store :=
  (s.holder? i name).map fun j => s.set j name v

/-- Makes an array. -/
def makeArray (s : Store) (elements : List Value) : Value × Store :=
  (.array s.fresh elements, { s with fresh := s.fresh + 1 })

/-- Makes a hash. -/
def makeHash (s : Store) (pairs : Pairs) : Value × Store :=
  (.hash s.fresh pairs, { s with fresh := s.fresh + 1 })

/-- Makes an array for each row. -/
def makeRows (s : Store) : List (List Value) → List Value × Store
  | [] => ([], s)
  | row :: rows =>
    let (first, s₁) := s.makeArray row
    let (others, s₂) := s₁.makeRows rows
    (first :: others, s₂)

/-- Prints a line. -/
def print (s : Store) (line : String) : Store :=
  { s with output := s.output ++ line ++ "\n" }

/-- Carries out the answer of a builtin function. -/
def make (s : Store) : Eval.Answer → Value × Store
  | .value v => (v, s)
  | .array elements => s.makeArray elements
  | .table rows =>
    let (elements, s') := s.makeRows rows
    s'.makeArray elements
  | .hash pairs => s.makeHash pairs
  | .line text => (.null, s.print text)

/-- Takes out what was printed so far. -/
def takeOutput (s : Store) : String × Store := (s.output, { s with output := "" })

/-- A frame as text. -/
def describe (s : Store) (i : Nat) : String :=
  (s.frames[i]?.getD ⟨[], none⟩).describe

end Store

end Scriptlet
