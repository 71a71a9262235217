import Scriptlet.Eval.Store
import Scriptlet.Proofs.Value.Normal

/-!
# `Proofs.Eval.NormalAnswers` — builtin functions on normal forms

A builtin function hands its arguments on, looks at kinds, keys and texts, and takes arrays and
hashes apart. None of this depends on places or blank lines in function bodies. So its answer to
normal forms is the normal form of its answer, and it fails for the same cause.

## Contents
- `Mirrors g`: the second result is the image of the first one under `g`.
- One lemma for each function; `Builtin.answer_mirrors` puts them together.
- `Store.make_normal`: what is made of an answer.
-/

namespace Scriptlet

namespace Eval

/-! ## Results -/

/-- The second result is the image of the first one; a failure has the same cause. -/
def Mirrors {α β : Type} (g : α → β) (r : Except RuntimeError α) (r' : Except RuntimeError β) :
    Prop := r' = r.map g

section Mirrors

variable {α α' β β' : Type} {g : α → α'} {k : β → β'}

theorem mirrors_error (e : RuntimeError) : Mirrors g (.error e) (.error e) := rfl

theorem mirrors_ok {a : α} {a' : α'} (h : a' = g a) : Mirrors g (.ok a) (.ok a') := by
  rw [h]
  rfl

theorem Mirrors.bind {r : Except RuntimeError α} {r' : Except RuntimeError α'}
    {f : α → Except RuntimeError β} {f' : α' → Except RuntimeError β'} (h : Mirrors g r r')
    (hf : ∀ a, Mirrors k (f a) (f' (g a))) : Mirrors k (r >>= f) (r' >>= f') := by
  rw [show r' = r.map g from h]
  cases r with
  | error e => exact mirrors_error e
  | ok a => exact hf a

/-- A part that has nothing to do with normal forms. -/
theorem mirrors_bind {r : Except RuntimeError α} {f : α → Except RuntimeError β}
    {f' : α → Except RuntimeError β'} (hf : ∀ a, Mirrors k (f a) (f' a)) :
    Mirrors k (r >>= f) (r >>= f') := by
  cases r with
  | error e => exact mirrors_error e
  | ok a => exact hf a

end Mirrors

/-! ## Answers -/

/-- The answer with the normal forms of the values in it. -/
def Answer.normal : Answer → Answer
  | .value v => .value v.normal
  | .array vs => .array (vs.map Value.normal)
  | .table rows => .table (rows.map (List.map Value.normal))
  | .hash ps => .hash ps.normal
  | .line text => .line text

/-- The second result is the normal form of the first one. -/
abbrev MirrorsAnswer : Result → Result → Prop := Mirrors Answer.normal

theorem mirrors_value {v v' : Value} (h : v' = v.normal) :
    MirrorsAnswer (.ok (.value v)) (.ok (.value v')) := mirrors_ok (congrArg Answer.value h)

theorem mirrors_array {vs vs' : List Value} (h : vs' = vs.map Value.normal) :
    MirrorsAnswer (.ok (.array vs)) (.ok (.array vs')) := mirrors_ok (congrArg Answer.array h)

theorem mirrors_hash {ps ps' : Pairs} (h : ps' = ps.normal) :
    MirrorsAnswer (.ok (.hash ps)) (.ok (.hash ps')) := mirrors_ok (congrArg Answer.hash h)

theorem mirrors_scalar {v : Value} (h : v.isScalar = true) :
    MirrorsAnswer (.ok (.value v)) (.ok (.value v)) :=
  mirrors_value (Value.normal_of_isScalar h).symm

theorem mirrors_yesNo (b : Bool) : MirrorsAnswer (yesNo b) (yesNo b) := mirrors_scalar rfl

/-- An array of scalars. -/
theorem mirrors_scalars {α : Type} {f : α → Value} (hf : ∀ a, (f a).isScalar = true)
    (xs : List α) : MirrorsAnswer (.ok (.array (xs.map f))) (.ok (.array (xs.map f))) := by
  apply mirrors_array
  rw [List.map_map]
  apply List.map_congr_left
  intro a _
  exact (Value.normal_of_isScalar (hf a)).symm

/-! ### Arguments -/

/-- The sequence with normal forms of its elements. -/
def Sequence.normal : Sequence → Sequence
  | .elements vs => .elements (vs.map Value.normal)
  | .characters cs => .characters cs

theorem positionOf_normal (b : Builtin) (v : Value) : positionOf b v.normal = positionOf b v := by
  cases v <;> rfl

theorem stringOf_normal (role : Role) (b : Builtin) (v : Value) :
    stringOf role b v.normal = stringOf role b v := by
  cases v <;> rfl

theorem keyOf_normal (b : Builtin) (v : Value) : keyOf b v.normal = keyOf b v := by cases v <;> rfl

theorem toInteger_normal (v : Value) : toInteger v.normal = toInteger v := by cases v <;> rfl

theorem toFloat_normal (v : Value) : toFloat v.normal = toFloat v := by cases v <;> rfl

theorem sequenceOf_mirrors (b : Builtin) (v : Value) :
    Mirrors Sequence.normal (sequenceOf b v) (sequenceOf b v.normal) := by
  cases v with
  | array id vs =>
    rw [Value.normal_array]
    rfl
  | _ => rfl

theorem pairsOf_mirrors (role : Role) (b : Builtin) (v : Value) :
    Mirrors Pairs.normal (pairsOf role b v) (pairsOf role b v.normal) := by
  cases v <;> rfl

theorem one_mirrors {args : List Value} {f : Value → Result}
    (hf : ∀ v, MirrorsAnswer (f v) (f v.normal)) :
    MirrorsAnswer (one args f) (one (args.map Value.normal) f) := by
  rcases args with _ | ⟨v, _ | ⟨w, rest⟩⟩
  · exact mirrors_error _
  · exact hf v
  · unfold one
    rw [List.length_map]
    exact mirrors_error _

theorem two_mirrors {args : List Value} {f : Value → Value → Result}
    (hf : ∀ v w, MirrorsAnswer (f v w) (f v.normal w.normal)) :
    MirrorsAnswer (two args f) (two (args.map Value.normal) f) := by
  rcases args with _ | ⟨v, _ | ⟨w, _ | ⟨x, rest⟩⟩⟩
  · exact mirrors_error _
  · exact mirrors_error _
  · exact hf v w
  · unfold two
    rw [List.length_map]
    exact mirrors_error _

theorem three_mirrors {args : List Value} {f : Value → Value → Value → Result}
    (hf : ∀ v w x, MirrorsAnswer (f v w x) (f v.normal w.normal x.normal)) :
    MirrorsAnswer (three args f) (three (args.map Value.normal) f) := by
  rcases args with _ | ⟨v, _ | ⟨w, _ | ⟨x, _ | ⟨y, rest⟩⟩⟩⟩
  · exact mirrors_error _
  · exact mirrors_error _
  · exact mirrors_error _
  · exact hf v w x
  · unfold three
    rw [List.length_map]
    exact mirrors_error _

/-- A function of a sequence, by whether its subject is an array or a string. -/
theorem ofSequence_mirrors {v : Value} {b : Builtin} {f f' : Sequence → Result}
    (helements : ∀ vs, MirrorsAnswer (f (.elements vs)) (f' (.elements (vs.map Value.normal))))
    (hcharacters : ∀ cs, MirrorsAnswer (f (.characters cs)) (f' (.characters cs))) :
    MirrorsAnswer (sequenceOf b v >>= f) (sequenceOf b v.normal >>= f') := by
  apply (sequenceOf_mirrors b v).bind
  intro s
  cases s with
  | elements vs => exact helements vs
  | characters cs => exact hcharacters cs

/-! ### Sequences -/

/-- An element, `null` where there is none. -/
theorem getD_normal (o : Option Value) :
    (o.map Value.normal).getD .null = (o.getD .null).normal := by
  cases o <;> rfl

theorem element_normal (o : Option Nat) (vs : List Value) :
    o.bind ((vs.map Value.normal)[·]?) = (o.bind (vs[·]?)).map Value.normal := by
  cases o with
  | none => rfl
  | some i => exact List.getElem?_map

/-- A character, `null` where there is none. -/
theorem mirrors_oneChar (o : Option Char) :
    MirrorsAnswer (.ok (.value ((o.map oneChar).getD .null)))
      (.ok (.value ((o.map oneChar).getD .null))) := by
  cases o with
  | none => exact mirrors_scalar rfl
  | some c => exact mirrors_scalar rfl

theorem elementOf_mirrors {b : Builtin} {onValues : List Value → Option Value}
    {onChars : List Char → Option Char} (v : Value)
    (h : ∀ vs, onValues (vs.map Value.normal) = (onValues vs).map Value.normal) :
    MirrorsAnswer (elementOf b onValues onChars v) (elementOf b onValues onChars v.normal) := by
  apply ofSequence_mirrors
  · intro vs
    apply mirrors_value
    rw [h, getD_normal]
  · intro cs
    exact mirrors_oneChar (onChars cs)

theorem partOf_mirrors {b : Builtin} {onValues : List Value → List Value}
    {onChars : List Char → List Char} (v : Value)
    (h : ∀ vs, onValues (vs.map Value.normal) = (onValues vs).map Value.normal) :
    MirrorsAnswer (partOf b onValues onChars v) (partOf b onValues onChars v.normal) := by
  apply ofSequence_mirrors
  · intro vs
    cases vs with
    | nil => exact mirrors_scalar rfl
    | cons w ws => exact mirrors_array (h (w :: ws))
  · intro cs
    cases cs with
    | nil => exact mirrors_scalar rfl
    | cons c cs => exact mirrors_scalar rfl

theorem atPosition_mirrors (v position : Value) :
    MirrorsAnswer (atPosition v position) (atPosition v.normal position.normal) := by
  unfold atPosition
  rw [positionOf_normal]
  apply ofSequence_mirrors
  · intro vs
    apply mirrors_bind
    intro i
    apply mirrors_value
    rw [List.length_map, element_normal, getD_normal]
  · intro cs
    exact mirrors_bind fun i => mirrors_oneChar _

theorem setAtPosition_mirrors (v position new : Value) :
    MirrorsAnswer (setAtPosition v position new)
      (setAtPosition v.normal position.normal new.normal) := by
  unfold setAtPosition
  rw [positionOf_normal, stringOf_normal]
  apply ofSequence_mirrors
  · intro vs
    dsimp only
    rw [List.length_map]
    exact mirrors_bind fun i => mirrors_bind fun place => mirrors_array List.map_set.symm
  · intro cs
    exact mirrors_bind fun i => mirrors_bind fun s => mirrors_bind fun c =>
      mirrors_bind fun place => mirrors_scalar rfl

theorem pushBack_mirrors (v new : Value) :
    MirrorsAnswer (pushBack v new) (pushBack v.normal new.normal) := by
  unfold pushBack
  rw [stringOf_normal]
  apply ofSequence_mirrors
  · intro vs
    apply mirrors_array
    rw [List.map_append]
    rfl
  · intro cs
    exact mirrors_bind fun s => mirrors_scalar rfl

theorem pushFront_mirrors (v new : Value) :
    MirrorsAnswer (pushFront v new) (pushFront v.normal new.normal) := by
  unfold pushFront
  rw [stringOf_normal]
  apply ofSequence_mirrors
  · intro vs
    exact mirrors_array rfl
  · intro cs
    exact mirrors_bind fun s => mirrors_scalar rfl

theorem insertAtPosition_mirrors (v position new : Value) :
    MirrorsAnswer (insertAtPosition v position new)
      (insertAtPosition v.normal position.normal new.normal) := by
  unfold insertAtPosition
  rw [positionOf_normal, stringOf_normal]
  apply ofSequence_mirrors
  · intro vs
    dsimp only
    rw [List.length_map]
    refine mirrors_bind fun i => mirrors_bind fun place => mirrors_array ?_
    rw [List.map_append, List.map_cons, List.map_take, List.map_drop]
  · intro cs
    exact mirrors_bind fun i => mirrors_bind fun s => mirrors_bind fun place => mirrors_scalar rfl

theorem removeAtPosition_mirrors (v position : Value) :
    MirrorsAnswer (removeAtPosition v position) (removeAtPosition v.normal position.normal) := by
  unfold removeAtPosition
  rw [positionOf_normal]
  apply ofSequence_mirrors
  · intro vs
    dsimp only
    rw [List.length_map]
    exact mirrors_bind fun i => mirrors_bind fun place =>
      mirrors_array (eraseIdx_map Value.normal vs place)
  · intro cs
    exact mirrors_bind fun i => mirrors_bind fun place => mirrors_scalar rfl

theorem reverseOf_mirrors (v : Value) : MirrorsAnswer (reverseOf v) (reverseOf v.normal) := by
  apply ofSequence_mirrors
  · intro vs
    exact mirrors_array List.map_reverse.symm
  · intro cs
    exact mirrors_scalar rfl

/-! ### Hashes -/

theorem keysOf_mirrors (b : Builtin) (v : Value) :
    MirrorsAnswer (do return .array (← pairsOf .subject b v).keys)
      (do return .array (← pairsOf .subject b v.normal).keys) :=
  (pairsOf_mirrors .subject b v).bind fun ps => mirrors_array ps.keys_normal

theorem valuesOf_mirrors (b : Builtin) (v : Value) :
    MirrorsAnswer (do return .array (← pairsOf .subject b v).values)
      (do return .array (← pairsOf .subject b v.normal).values) :=
  (pairsOf_mirrors .subject b v).bind fun ps => mirrors_array ps.values_normal

theorem entriesOf_mirrors (v : Value) : MirrorsAnswer (entriesOf v) (entriesOf v.normal) := by
  apply (pairsOf_mirrors .subject .entries v).bind
  intro ps
  apply mirrors_ok
  apply congrArg Answer.table
  rw [Pairs.normal_eq, List.map_map, List.map_map]
  apply List.map_congr_left
  intro p _
  show [p.normal.key, p.normal.value] = [p.key.normal, p.value.normal]
  rw [p.key_normal, p.value_normal]

theorem hasKeyOf_mirrors (v key : Value) :
    MirrorsAnswer (hasKeyOf v key) (hasKeyOf v.normal key.normal) := by
  unfold hasKeyOf
  rw [keyOf_normal]
  apply (pairsOf_mirrors .first .hasKey v).bind
  intro ps
  apply mirrors_bind
  intro k
  rw [ps.place?_normal]
  exact mirrors_yesNo _

theorem setKeyOf_mirrors (v key new : Value) :
    MirrorsAnswer (setKeyOf v key new) (setKeyOf v.normal key.normal new.normal) := by
  unfold setKeyOf
  rw [keyOf_normal]
  apply (pairsOf_mirrors .first .set v).bind
  intro ps
  exact mirrors_bind fun k => mirrors_hash (ps.insertAt_normal k ⟨key, new⟩)

theorem deleteKeyOf_mirrors (v key : Value) :
    MirrorsAnswer (deleteKeyOf v key) (deleteKeyOf v.normal key.normal) := by
  unfold deleteKeyOf
  rw [keyOf_normal]
  apply (pairsOf_mirrors .first .delete v).bind
  intro ps
  exact mirrors_bind fun k => mirrors_hash (ps.removeAt_normal k)

/-! ### Other subjects -/

theorem lenOf_mirrors (v : Value) : MirrorsAnswer (lenOf v) (lenOf v.normal) := by
  cases v with
  | array id vs =>
    rw [Value.normal_array]
    apply mirrors_value
    rw [List.length_map]
    rfl
  | hash id ps =>
    apply mirrors_value
    rw [ps.size_normal]
    rfl
  | _ => rfl

theorem toArray_mirrors (v : Value) : MirrorsAnswer (toArray v) (toArray v.normal) := by
  cases v with
  | str s => exact mirrors_scalars (fun c => rfl) s.toList
  | _ => rfl

theorem charOf_mirrors (v : Value) : MirrorsAnswer (charOf v) (charOf v.normal) := by
  cases v with
  | int n =>
    show MirrorsAnswer (charOf (.int n)) (charOf (.int n))
    unfold charOf
    dsimp only
    split
    · exact mirrors_scalar rfl
    · exact mirrors_error _
  | _ => rfl

theorem codeOf_mirrors (v : Value) : MirrorsAnswer (codeOf v) (codeOf v.normal) := by
  unfold codeOf
  rw [stringOf_normal]
  apply mirrors_bind
  intro s
  split
  · exact mirrors_scalar rfl
  · exact mirrors_error _

theorem splitWith_mirrors (b : Builtin) (pieces : String → String → List (List Char))
    (v separator : Value) :
    MirrorsAnswer (splitWith b pieces v separator)
      (splitWith b pieces v.normal separator.normal) := by
  unfold splitWith
  rw [stringOf_normal, stringOf_normal]
  exact mirrors_bind fun s => mirrors_bind fun sep => mirrors_scalars (fun cs => rfl) _

theorem joinWith_mirrors (v separator : Value) :
    MirrorsAnswer (joinWith v separator) (joinWith v.normal separator.normal) := by
  cases v with
  | array id vs =>
    rw [Value.normal_array]
    have hparts : stringOf .element .join ∘ Value.normal = stringOf .element .join :=
      funext (stringOf_normal .element .join)
    unfold joinWith
    dsimp only
    rw [stringOf_normal, List.mapM_map, hparts]
    exact mirrors_bind fun sep => mirrors_bind fun parts => mirrors_scalar rfl
  | _ => rfl

end Eval

open Eval

/-- A builtin function answers normal forms with the normal form of its answer. -/
theorem Builtin.answer_mirrors (b : Builtin) (args : List Value) :
    MirrorsAnswer (b.answer args) (b.answer (args.map Value.normal)) := by
  cases b with
  | len => exact one_mirrors lenOf_mirrors
  | print =>
    have htexts : (args.map Value.normal).map Value.text = args.map Value.text := by
      rw [List.map_map]
      exact List.map_congr_left fun v _ => v.text_normal
    apply mirrors_ok
    rw [htexts]
    rfl
  | type => exact one_mirrors fun v => v.kind_normal ▸ mirrors_scalar rfl
  | isInt | isFloat | isBool | isString | isArray | isHash | isNull | isFunction =>
    exact one_mirrors fun v => v.kind_normal ▸ mirrors_yesNo _
  | int => exact one_mirrors fun v => toInteger_normal v ▸ mirrors_bind fun i => mirrors_scalar rfl
  | float => exact one_mirrors fun v => toFloat_normal v ▸ mirrors_bind fun x => mirrors_scalar rfl
  | string => exact one_mirrors fun v => v.text_normal ▸ mirrors_scalar rfl
  | array => exact one_mirrors toArray_mirrors
  | bool => exact one_mirrors fun v => v.isTruthy_normal ▸ mirrors_yesNo _
  | first => exact one_mirrors fun v => elementOf_mirrors v fun vs => List.head?_map
  | last => exact one_mirrors fun v => elementOf_mirrors v fun vs => List.getLast?_map
  | rest | popFront => exact one_mirrors fun v => partOf_mirrors v fun vs => List.map_tail.symm
  | init | pop => exact one_mirrors fun v => partOf_mirrors v fun vs => List.map_dropLast.symm
  | «at» => exact two_mirrors atPosition_mirrors
  | setAt => exact three_mirrors setAtPosition_mirrors
  | push => exact two_mirrors pushBack_mirrors
  | pushFront => exact two_mirrors pushFront_mirrors
  | insert => exact three_mirrors insertAtPosition_mirrors
  | remove => exact two_mirrors removeAtPosition_mirrors
  | reverse => exact one_mirrors reverseOf_mirrors
  | keys => exact one_mirrors (keysOf_mirrors .keys)
  | values => exact one_mirrors (valuesOf_mirrors .values)
  | entries => exact one_mirrors entriesOf_mirrors
  | hasKey => exact two_mirrors hasKeyOf_mirrors
  | set => exact three_mirrors setKeyOf_mirrors
  | delete => exact two_mirrors deleteKeyOf_mirrors
  | char => exact one_mirrors charOf_mirrors
  | ascii => exact one_mirrors codeOf_mirrors
  | split | splitOnce => exact two_mirrors (splitWith_mirrors _ _)
  | join => exact two_mirrors joinWith_mirrors

/-! ## What is made of an answer -/

namespace Store

theorem makeArray_normal (s : Store) (vs : List Value) :
    s.normal.makeArray (vs.map Value.normal) =
      ((s.makeArray vs).1.normal, (s.makeArray vs).2.normal) := by
  show _ = ((Value.array s.fresh vs).normal, _)
  rw [Value.normal_array]
  rfl

theorem makeRows_normal (s : Store) (rows : List (List Value)) :
    s.normal.makeRows (rows.map (List.map Value.normal)) =
      ((s.makeRows rows).1.map Value.normal, (s.makeRows rows).2.normal) := by
  induction rows generalizing s with
  | nil => rfl
  | cons row rows ih =>
    rw [List.map_cons]
    unfold makeRows
    rw [makeArray_normal]
    dsimp only
    rw [ih]
    rfl

/-- A store of normal forms makes the normal form of what the store makes. -/
theorem make_normal (s : Store) (a : Eval.Answer) :
    s.normal.make a.normal = ((s.make a).1.normal, (s.make a).2.normal) := by
  cases a with
  | value v => rfl
  | array vs => exact s.makeArray_normal vs
  | table rows =>
    show (s.normal.makeRows (rows.map (List.map Value.normal))).2.makeArray
      (s.normal.makeRows (rows.map (List.map Value.normal))).1 = _
    rw [makeRows_normal]
    exact (s.makeRows rows).2.makeArray_normal (s.makeRows rows).1
  | hash ps => rfl
  | line text => rfl

end Store

end Scriptlet
