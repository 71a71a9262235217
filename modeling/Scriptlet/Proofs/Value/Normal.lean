import Scriptlet.Eval.Store
import Scriptlet.Eval.Arithmetic
import Scriptlet.Proofs.Syntax.Normal
import Scriptlet.Proofs.Value.Parts

/-!
# `Proofs.Value.Normal` — values up to places and blank lines

A function keeps the tree of its body, so the values of a program carry its places and blank lines
along. The normal form of a value has the normal form of every body inside it. Nothing that
operators or stores do with values tells the two apart.

## Contents
- `Value.normal`, `Pairs.normal`, `Store.normal`: the normal forms.
- `Value.kind_normal`, `Value.text_normal` and the like: what a normal form has in common with the
  value.
- `applyBinary_normal`, `applyUnary_normal`: operators on normal forms.
- `Store.get?_normal`, `Store.set_normal` and the like: stores of normal forms.
-/

namespace Scriptlet

/-! ## Normal forms -/

mutual

/-- The value with normal forms of all function bodies inside it. -/
def Value.normal : Value → Value
  | .array id elements => .array id (Value.normalList elements)
  | .hash id pairs => .hash id pairs.normal
  | .func id parameters body frame => .func id (parameters.map Ident.normal) body.normal frame
  | .returned value => .returned value.normal
  | .int n => .int n
  | .float x => .float x
  | .bool b => .bool b
  | .null => .null
  | .str s => .str s
  | .builtin b => .builtin b
  | .error message => .error message

/-- The normal forms of several values. -/
def Value.normalList : List Value → List Value
  | [] => []
  | v :: vs => v.normal :: Value.normalList vs

/-- The pairs with normal forms of keys and values. -/
def Pairs.normal : Pairs → Pairs
  | ⟨entries, index⟩ => ⟨Pair.normalList entries, index⟩

/-- The normal forms of several pairs. -/
def Pair.normalList : List Pair → List Pair
  | [] => []
  | p :: ps => p.normal :: Pair.normalList ps

/-- The pair with the normal forms of its key and its value. -/
def Pair.normal : Pair → Pair
  | ⟨key, value⟩ => ⟨key.normal, value.normal⟩

end

theorem Value.normalList_eq (vs : List Value) : Value.normalList vs = vs.map Value.normal := by
  induction vs with
  | nil => rfl
  | cons v vs ih => exact congrArg (v.normal :: ·) ih

theorem Pair.normalList_eq (ps : List Pair) : Pair.normalList ps = ps.map Pair.normal := by
  induction ps with
  | nil => rfl
  | cons p ps ih => exact congrArg (p.normal :: ·) ih

theorem Value.normal_array (id : Nat) (vs : List Value) :
    (Value.array id vs).normal = .array id (vs.map Value.normal) := by
  rw [← Value.normalList_eq]
  rfl

theorem Pairs.normal_eq (ps : Pairs) : ps.normal = ⟨ps.entries.map Pair.normal, ps.index⟩ := by
  rw [← Pair.normalList_eq]
  cases ps
  rfl

theorem Pair.key_normal (p : Pair) : p.normal.key = p.key.normal := by
  cases p
  rfl

theorem Pair.value_normal (p : Pair) : p.normal.value = p.value.normal := by
  cases p
  rfl

/-! ## What stays the same -/

namespace Value

theorem kind_normal (v : Value) : v.normal.kind = v.kind := by cases v <;> rfl

theorem isTruthy_normal (v : Value) : v.normal.isTruthy = v.isTruthy := by cases v <;> rfl

theorem key?_normal (v : Value) : v.normal.key? = v.key? := by cases v <;> rfl

theorem normal_of_isScalar {v : Value} (h : v.isScalar = true) : v.normal = v := by
  cases v <;> first | rfl | cases h

end Value

mutual

theorem Value.text_normal : ∀ v : Value, v.normal.text = v.text
  | .int _ | .float _ | .bool _ | .null | .str _ | .builtin _ | .error _ => rfl
  | .array _ elements => by
    unfold Value.normal Value.text
    rw [Value.textList_normal elements]
  | .hash _ pairs => by
    unfold Value.normal Value.text
    rw [Pairs.text_normal pairs]
  | .func _ parameters body _ => renderFunction_normal parameters body
  | .returned value => by
    unfold Value.normal Value.text
    rw [Value.text_normal value]

theorem Value.textList_normal : ∀ vs : List Value,
    Value.textList (Value.normalList vs) = Value.textList vs
  | [] => rfl
  | v :: vs => by
    unfold Value.normalList Value.textList
    rw [Value.text_normal v, Value.textList_normal vs]

theorem Pairs.text_normal : ∀ ps : Pairs, ps.normal.text = ps.text
  | ⟨entries, _⟩ => by
    unfold Pairs.normal Pairs.text
    rw [Pair.textList_normal entries]

theorem Pair.textList_normal : ∀ ps : List Pair,
    Pair.textList (Pair.normalList ps) = Pair.textList ps
  | [] => rfl
  | p :: ps => by
    unfold Pair.normalList Pair.textList
    rw [Pair.text_normal p, Pair.textList_normal ps]

theorem Pair.text_normal : ∀ p : Pair, p.normal.text = p.text
  | ⟨key, value⟩ => by
    unfold Pair.normal Pair.text
    rw [Value.text_normal key, Value.text_normal value]

end

theorem eraseIdx_map {α β : Type} (f : α → β) (xs : List α) (i : Nat) :
    (xs.map f).eraseIdx i = (xs.eraseIdx i).map f := by
  rw [List.eraseIdx_eq_take_drop_succ, List.eraseIdx_eq_take_drop_succ, List.map_append,
    List.map_take, List.map_drop]

/-! ## The pairs of a hash -/

namespace Pairs

theorem place?_normal (ps : Pairs) (k : Key) : ps.normal.place? k = ps.place? k := by
  rw [normal_eq]
  rfl

theorem size_normal (ps : Pairs) : ps.normal.size = ps.size := by
  rw [normal_eq]
  exact List.length_map _

theorem keys_normal (ps : Pairs) : ps.normal.keys = ps.keys.map Value.normal := by
  rw [normal_eq]
  unfold keys
  rw [List.map_map, List.map_map]
  exact List.map_congr_left fun p _ => p.key_normal

theorem values_normal (ps : Pairs) : ps.normal.values = ps.values.map Value.normal := by
  rw [normal_eq]
  unfold values
  rw [List.map_map, List.map_map]
  exact List.map_congr_left fun p _ => p.value_normal

theorem insertAt_normal (ps : Pairs) (k : Key) (pair : Pair) :
    ps.normal.insertAt k pair.normal = (ps.insertAt k pair).normal := by
  unfold insertAt
  rw [place?_normal, normal_eq]
  cases ps.place? k with
  | none => simp [normal_eq]
  | some i => simp [normal_eq, List.map_set]

theorem insert?_normal (ps : Pairs) (key value : Value) :
    ps.normal.insert? key.normal value.normal = (ps.insert? key value).map Pairs.normal := by
  unfold insert?
  rw [Value.key?_normal, Option.map_map]
  exact Option.map_congr fun k _ => insertAt_normal ps k ⟨key, value⟩

theorem removeAt_normal (ps : Pairs) (k : Key) :
    (ps.normal.removeAt k).2 = (ps.removeAt k).2.normal := by
  unfold removeAt
  rw [place?_normal]
  cases ps.place? k with
  | none => rfl
  | some i => simp [normal_eq, eraseAt, eraseIdx_map]

theorem find?_normal (ps : Pairs) (key : Value) :
    ps.normal.find? key.normal = (ps.find? key).map (Option.map Pair.normal) := by
  unfold find?
  rw [Value.key?_normal, Option.map_map]
  refine Option.map_congr fun k _ => ?_
  show ps.normal.findAt? k = (ps.findAt? k).map Pair.normal
  unfold findAt?
  rw [place?_normal, normal_eq]
  cases ps.place? k with
  | none => rfl
  | some i => exact List.getElem?_map

end Pairs

/-! ## Operators -/

namespace Eval

/-- Operators see no difference, and what they give is a normal form. -/
theorem applyBinary_normal (op : BinaryOp) (v w : Value) :
    applyBinary op v.normal w.normal = applyBinary op v w := by
  cases v <;> cases w <;> rfl

theorem applyUnary_normal (op : UnaryOp) (v : Value) :
    applyUnary op v.normal = applyUnary op v := by
  cases op <;> cases v <;> rfl

end Eval

/-! ## Stores -/

/-- A name with the normal form of its value. -/
def normalBinding (b : String × Value) : String × Value := (b.1, b.2.normal)

/-- The frame with normal forms of its values. -/
def Frame.normal (f : Frame) : Frame := { f with bindings := f.bindings.map normalBinding }

/-- The store with normal forms of all values. -/
def Store.normal (s : Store) : Store := { s with frames := s.frames.map Frame.normal }

theorem Frame.lookup_normal (name : String) (bs : List (String × Value)) :
    (bs.map normalBinding).lookup name = (bs.lookup name).map Value.normal := by
  induction bs with
  | nil => rfl
  | cons b bs ih =>
    unfold normalBinding at ih ⊢
    rw [List.map_cons, List.lookup_cons, List.lookup_cons]
    cases name == b.1
    · exact ih
    · rfl

theorem Frame.setBinding_normal (name : String) (v : Value) (bs : List (String × Value)) :
    Frame.setBinding name v.normal (bs.map normalBinding) =
      (Frame.setBinding name v bs).map normalBinding := by
  induction bs with
  | nil => rfl
  | cons b bs ih =>
    unfold normalBinding at ih ⊢
    rw [List.map_cons]
    unfold Frame.setBinding
    by_cases hb : b.1 = name
    · rw [if_pos hb, if_pos hb]
      rfl
    · rw [if_neg hb, if_neg hb, ih]
      rfl

namespace Store

theorem frames_normal (s : Store) (i : Nat) :
    s.normal.frames[i]? = (s.frames[i]?).map Frame.normal := Array.getElem?_map

theorem outer?_normal (s : Store) (i : Nat) : s.normal.outer? i = s.outer? i := by
  unfold outer?
  rw [frames_normal]
  cases s.frames[i]? <;> rfl

theorem getIn?_normal (s : Store) (name : String) (i : Nat) :
    s.normal.getIn? name i = (s.getIn? name i).map Value.normal := by
  unfold getIn?
  rw [frames_normal]
  cases s.frames[i]? with
  | none => rfl
  | some f => exact Frame.lookup_normal name f.bindings

theorem chain_normal (s : Store) (i : Nat) : s.normal.chain i = s.chain i :=
  chain_congr (outer?_normal s) i

theorem get?_normal (s : Store) (i : Nat) (name : String) :
    s.normal.get? i name = (s.get? i name).map Value.normal := by
  unfold get?
  rw [chain_normal, funext (getIn?_normal s name), List.map_findSome?]
  rfl

theorem holder?_normal (s : Store) (i : Nat) (name : String) :
    s.normal.holder? i name = s.holder? i name := by
  unfold holder?
  rw [chain_normal]
  simp only [getIn?_normal, Option.isSome_map]

theorem set_normal (s : Store) (i : Nat) (name : String) (v : Value) :
    s.normal.set i name v.normal = (s.set i name v).normal := by
  unfold set normal
  congr 1
  refine Array.ext_getElem? fun j => ?_
  rw [Array.getElem?_modify, Array.getElem?_map, Array.getElem?_map, Array.getElem?_modify]
  cases s.frames[j]? with
  | none => simp
  | some f =>
    by_cases hij : i = j
    · simp [hij, Frame.set, Frame.normal, Frame.setBinding_normal]
    · simp [hij]

theorem setAll_normal (s : Store) (i : Nat) (bs : List (String × Value)) :
    s.normal.setAll i (bs.map normalBinding) = (s.setAll i bs).normal := by
  induction bs generalizing s with
  | nil => rfl
  | cons b bs ih =>
    have hset : s.normal.set i b.1 b.2.normal = (s.set i b.1 b.2).normal := set_normal s i b.1 b.2
    show (s.normal.set i b.1 b.2.normal).setAll i (bs.map normalBinding) = _
    rw [hset]
    exact ih _

theorem size_normal (s : Store) : s.normal.frames.size = s.frames.size := Array.size_map

theorem openFrame_normal (s : Store) (outer : Option Nat) :
    s.normal.openFrame outer = ((s.openFrame outer).1, (s.openFrame outer).2.normal) := by
  unfold openFrame
  rw [size_normal]
  unfold normal
  rw [Array.map_push]
  rfl

end Store

end Scriptlet
