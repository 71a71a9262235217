import Scriptlet.Proofs.Eval.Answers

/-!
# `Proofs.Eval.Within` — no value names a frame that is not there

A function carries the number of the frame in which it was made, and arrays and hashes carry
functions. Operators and builtin functions make values only from those they are given, so they bring
no other frame in.

## Contents
- `Value.Within n`: every function in the value closes over one of the first `n` frames.
- `Pairs.Within`, `Answer.Within`: the same for what values and answers are made of.
- `Value.within_iff_every`: this is a property of everything inside the value.
- `applyBinary_plain`, `applyUnary_plain`, `Builtin.answer_within`: what programs compute with.
-/

namespace Scriptlet

/-! ## Values -/

/-- Every function in the value closes over one of the first `n` frames. -/
inductive Value.Within (n : Nat) : Value → Prop
  | int (i : Int64) : Within n (.int i)
  | float (x : Float) : Within n (.float x)
  | bool (b : Bool) : Within n (.bool b)
  | null : Within n .null
  | str (s : String) : Within n (.str s)
  | array {id : Nat} {vs : List Value} (h : ∀ v ∈ vs, Within n v) : Within n (.array id vs)
  | hash {id : Nat} {ps : Pairs} (hkey : ∀ p ∈ ps.entries, Within n p.key)
      (hvalue : ∀ p ∈ ps.entries, Within n p.value) : Within n (.hash id ps)
  | func {id : Nat} {parameters : List Ident} {body : Block} {frame : Nat} (h : frame < n) :
      Within n (.func id parameters body frame)
  | builtin (b : Builtin) : Within n (.builtin b)
  | error (message : String) : Within n (.error message)
  | returned {v : Value} (h : Within n v) : Within n (.returned v)

/-- The functions in keys and values close over the first `n` frames. -/
def Pairs.Within (n : Nat) (ps : Pairs) : Prop :=
  ∀ p ∈ ps.entries, p.key.Within n ∧ p.value.Within n

/-- The functions in the values close over the first `n` frames. -/
def AllWithin (n : Nat) (vs : List Value) : Prop := ∀ v ∈ vs, v.Within n

variable {n m : Nat}

theorem Value.Within.mono {v : Value} (h : v.Within n) (hnm : n ≤ m) : v.Within m := by
  induction h with
  | int i => exact .int i
  | float x => exact .float x
  | bool b => exact .bool b
  | null => exact .null
  | str s => exact .str s
  | array _ ih => exact .array ih
  | hash _ _ ihk ihv => exact .hash ihk ihv
  | func h => exact .func (Nat.lt_of_lt_of_le h hnm)
  | builtin b => exact .builtin b
  | error s => exact .error s
  | returned _ ih => exact .returned ih

theorem AllWithin.mono {vs : List Value} (h : AllWithin n vs) (hnm : n ≤ m) : AllWithin m vs :=
  fun v hv => (h v hv).mono hnm

theorem allWithin_nil : AllWithin n [] := by
  intro v hv
  simp at hv

theorem AllWithin.cons {v : Value} {vs : List Value} (hv : v.Within n) (hvs : AllWithin n vs) :
    AllWithin n (v :: vs) := by
  intro w hw
  rcases List.mem_cons.mp hw with rfl | hw
  · exact hv
  · exact hvs w hw

theorem AllWithin.getD {vs : List Value} {o : Option Value} (h : AllWithin n vs)
    (ho : ∀ v, o = some v → v ∈ vs) : (o.getD .null).Within n := by
  cases o with
  | none => exact .null
  | some v => exact h v (ho v rfl)

theorem Value.Within.elements {id : Nat} {vs : List Value} (h : (Value.array id vs).Within n) :
    AllWithin n vs := by
  cases h with
  | array h => exact h

theorem Value.Within.pairs {id : Nat} {ps : Pairs} (h : (Value.hash id ps).Within n) :
    ps.Within n := by
  cases h with
  | hash hkey hvalue => exact fun p hp => ⟨hkey p hp, hvalue p hp⟩

theorem Pairs.Within.hash {id : Nat} {ps : Pairs} (h : ps.Within n) :
    (Value.hash id ps).Within n :=
  .hash (fun p hp => (h p hp).1) fun p hp => (h p hp).2

/-! ## Everything inside a value -/

/-- The value is no function, or one that closes over one of the first `n` frames. -/
abbrev Value.ClosesBelow (n : Nat) : Value → Prop := ClosesOver (· < n)

theorem Value.Within.every {v : Value} (h : v.Within n) : v.Every (ClosesBelow n) := by
  induction h with
  | int | float | bool | null | str => exact every_scalar rfl trivial
  | array _ ih => exact every_array trivial ih
  | hash _ _ ihk ihv => exact Pairs.Every.hash (fun p hp => ⟨ihk p hp, ihv p hp⟩) trivial
  | func h => exact every_func h
  | builtin b => exact every_builtin trivial
  | error s =>
    intro w hw
    cases hw
    trivial
  | returned _ ih =>
    intro w hw
    cases hw with
    | self => trivial
    | returned hw => exact ih w hw

mutual

theorem Value.within_of_every : ∀ v : Value, v.Every (Value.ClosesBelow n) → v.Within n
  | .int i, _ => .int i
  | .float x, _ => .float x
  | .bool b, _ => .bool b
  | .null, _ => .null
  | .str s, _ => .str s
  | .array _ vs, h => .array (Value.allWithin_of_every vs h.elements)
  | .hash _ ⟨ps, _⟩, h => Pairs.Within.hash (Pair.within_of_every ps h.pairs)
  | .func _ _ _ _, h => .func h.self
  | .builtin b, _ => .builtin b
  | .error s, _ => .error s
  | .returned v, h => .returned (Value.within_of_every v fun w hw => h w (.returned hw))

theorem Value.allWithin_of_every :
    ∀ vs : List Value, AllEvery (Value.ClosesBelow n) vs → AllWithin n vs
  | [], _ => allWithin_nil
  | v :: vs, h =>
    (Value.allWithin_of_every vs fun w hw => h w (List.mem_cons_of_mem v hw)).cons
      (Value.within_of_every v (h v List.mem_cons_self))

theorem Pair.within_of_every : ∀ ps : List Pair,
    (∀ p ∈ ps, p.key.Every (Value.ClosesBelow n) ∧ p.value.Every (Value.ClosesBelow n)) →
    ∀ p ∈ ps, p.key.Within n ∧ p.value.Within n
  | [], _ => fun _ hp => absurd hp List.not_mem_nil
  | ⟨k, v⟩ :: ps, h =>
    have hfirst := h ⟨k, v⟩ List.mem_cons_self
    List.forall_mem_cons.mpr
      ⟨⟨Value.within_of_every k hfirst.1, Value.within_of_every v hfirst.2⟩,
        Pair.within_of_every ps fun p hp => h p (List.mem_cons_of_mem _ hp)⟩

end

theorem Value.within_iff_every {v : Value} : v.Within n ↔ v.Every (Value.ClosesBelow n) :=
  ⟨Value.Within.every, Value.within_of_every v⟩

theorem Pairs.within_iff_every {ps : Pairs} : ps.Within n ↔ ps.Every (Value.ClosesBelow n) := by
  unfold Pairs.Within Pairs.Every
  simp only [Value.within_iff_every]

theorem allWithin_iff_allEvery {vs : List Value} :
    AllWithin n vs ↔ AllEvery (Value.ClosesBelow n) vs := by
  unfold AllWithin AllEvery
  simp only [Value.within_iff_every]

/-! ## The pairs of a hash -/

namespace Pairs

theorem empty_within : Pairs.empty.Within n := within_iff_every.mpr every_empty

theorem Within.mono {ps : Pairs} (h : ps.Within n) (hnm : n ≤ m) : ps.Within m :=
  fun p hp => ⟨(h p hp).1.mono hnm, (h p hp).2.mono hnm⟩

theorem insert?_within {ps more : Pairs} {key value : Value} (h : ps.Within n)
    (hk : key.Within n) (hv : value.Within n) (hm : ps.insert? key value = some more) :
    more.Within n :=
  within_iff_every.mpr (every_insert? (within_iff_every.mp h) hk.every hv.every hm)

theorem find?_within {ps : Pairs} {key : Value} {found : Option Pair} (h : ps.Within n)
    (hf : ps.find? key = some found) : ((found.map Pair.value).getD .null).Within n :=
  Value.within_iff_every.mpr (every_find? (within_iff_every.mp h) trivial hf)

end Pairs

namespace Eval

/-! ## Operators -/

/-- A value without functions in it. -/
def IsPlain (v : Value) : Prop := ∀ n, v.Within n

theorem isPlain_of_isScalar {v : Value} (h : v.isScalar = true) : IsPlain v := fun _ =>
  Value.within_iff_every.mpr (Value.every_scalar h (v.closesOver_of_isScalar h))

/-- Operators compute numbers, truth values and strings. -/
theorem applyBinary_plain (op : BinaryOp) (left right : Value) :
    Gives IsPlain (applyBinary op left right) :=
  fun v hv => isPlain_of_isScalar (applyBinary_scalar op left right v hv)

theorem applyUnary_plain (op : UnaryOp) (operand : Value) :
    Gives IsPlain (applyUnary op operand) :=
  fun v hv => isPlain_of_isScalar (applyUnary_scalar op operand v hv)

/-! ## Builtin functions -/

/-- The functions in what the answer is made of close over the first `n` frames. -/
def Answer.Within (n : Nat) : Answer → Prop
  | .value v => v.Within n
  | .array vs => AllWithin n vs
  | .table rows => ∀ row ∈ rows, AllWithin n row
  | .hash ps => ps.Within n
  | .line _ => True

theorem Answer.Every.within {a : Answer} (h : a.Every (Value.ClosesBelow n)) : a.Within n := by
  cases a with
  | value v => exact Value.within_iff_every.mpr h
  | array vs => exact allWithin_iff_allEvery.mpr h
  | table rows => exact fun row hrow => allWithin_iff_allEvery.mpr (h row hrow)
  | hash ps => exact Pairs.within_iff_every.mpr h
  | line text => trivial

end Eval

open Eval

/-- A builtin function answers with parts of its arguments and with plain values. -/
theorem Builtin.answer_within (b : Builtin) {args : List Value} (h : AllWithin n args) :
    Gives (Answer.Within n) (b.answer args) := by
  have hargs := allWithin_iff_allEvery.mp h
  intro a ha
  exact (b.answer_every Value.closesOver_of_isScalar hargs a ha).within

end Scriptlet
