import Scriptlet.Eval.Evaluator
import Scriptlet.Proofs.Value.Normal

/-!
# `Proofs.Eval.Sequences` — positions, and strings as arrays of characters

A position means one place in a sequence, whichever function is given it: a place counted from the
front, or from the back where it is negative. Functions differ in which places they accept, and in
whether a place that they do not accept is an error.

A function of sequences does to the characters of a string what it does to the elements of an array.
So it makes no difference whether a string is taken apart into an array before or after.

## Contents
- `carryOut`, `apply_builtin`: a call of a builtin function.
- `placeOf_eq_toInt`: a place by arithmetic on 64 bits. `element?_eq_ite`, `slot?_eq_ite`: which places
  are accepted.
- `array_positions`: what the functions of positions do to an array.
- `Operation`: the functions of sequences with their arguments; `Alike`: ends alike on a string and on
  the array of its characters.
- `characters_alike`: all operations end alike.
-/

namespace Scriptlet.Eval

/-! ## Calls of builtin functions -/

/-- The result of a builtin function, carried out. -/
def carryOut (r : Result) : Run Value := do
  let answer ← Run.ofExcept r
  Run.change fun s => s.make answer

theorem apply_builtin (budget : Nat) (b : Builtin) (args : List Value) (s : Store) :
    apply (budget + 1) (.builtin b) args s = carryOut (b.answer args) s := rfl

/-! ## Places -/

section Places

variable (i : Int64) (n : Nat)

theorem placeOf_eq_ite : placeOf i n = if 0 ≤ i.toInt then i.toInt else n + i.toInt := by
  have hneg : i < 0 ↔ i.toInt < 0 := Int64.lt_iff_toInt_lt
  unfold placeOf
  simp only [hneg]
  by_cases hi : i.toInt < 0
  · rw [if_pos hi, if_neg (by omega), Int.add_comm]
  · rw [if_neg hi, if_pos (by omega)]

theorem placeOf_of_nonneg {i : Int64} (hi : 0 ≤ i.toInt) : placeOf i n = i.toInt := by
  rw [placeOf_eq_ite, if_pos hi]

/-- Counting from the back stays in the range of 64 bits. -/
theorem placeOf_eq_toInt (hn : n ≤ Int64.maxValue.toInt) :
    placeOf i n = (if i < 0 then i + Int64.ofNat n else i).toInt := by
  have hmax : Int64.maxValue.toInt = 9223372036854775807 := rfl
  unfold placeOf
  by_cases hi : i < 0
  · have hneg : i.toInt < 0 := Int64.lt_iff_toInt_lt.mp hi
    have hlow := i.le_toInt
    rw [if_pos hi, if_pos hi, Int64.toInt_add, Int64.toInt_ofNat_of_lt (by omega),
      Int.bmod_eq_of_le] <;> omega
  · rw [if_neg hi, if_neg hi]

theorem element?_eq_ite :
    element? i n = if 0 ≤ placeOf i n ∧ placeOf i n < n then some (placeOf i n).toNat else none := by
  unfold element?
  simp only [Bool.and_eq_true, decide_eq_true_eq]

theorem slot?_eq_ite :
    slot? i n = if 0 ≤ placeOf i n ∧ placeOf i n ≤ n then some (placeOf i n).toNat else none := by
  unfold slot?
  simp only [Bool.and_eq_true, decide_eq_true_eq]

end Places

/-! ## Positions in arrays -/

/-- The element at a place, `null` where there is none. -/
def elementAt (vs : List Value) (place : Int) : Value :=
  if h : 0 ≤ place ∧ place < vs.length then vs[place.toNat] else .null

/-- The end of a run that makes an array. -/
def madeArray (s : Store) (elements : List Value) : Outcome Value :=
  .done (.array s.fresh elements) { s with fresh := s.fresh + 1 }

section Positions

variable (vs : List Value) (i : Int64) (x : Value)

theorem elementAt_placeOf :
    ((element? i vs.length).bind (vs[·]?)).getD .null = elementAt vs (placeOf i vs.length) := by
  unfold elementAt
  rw [element?_eq_ite]
  by_cases h : 0 ≤ placeOf i vs.length ∧ placeOf i vs.length < vs.length
  · have hplace : (placeOf i vs.length).toNat < vs.length := by omega
    rw [if_pos h, dif_pos h, Option.bind_some, List.getElem?_eq_getElem hplace, Option.getD_some]
  · rw [if_neg h, dif_neg h]
    rfl

theorem elementAt_set {place : Int} (h0 : 0 ≤ place) (hn : place < vs.length) (other : Int) :
    elementAt (vs.set place.toNat x) other = if other = place then x else elementAt vs other := by
  have hlength : (vs.set place.toNat x).length = vs.length := List.length_set
  unfold elementAt
  by_cases h : 0 ≤ other ∧ other < vs.length
  · rw [dif_pos h, dif_pos (by omega), List.getElem_set]
    by_cases heq : other = place
    · rw [if_pos heq, if_pos (by rw [heq])]
    · rw [if_neg heq, if_neg (by omega)]
  · rw [dif_neg h, dif_neg (by omega), if_neg (by omega)]

theorem take_append_cons_drop {α : Type} (xs : List α) (x : α) {k : Nat} (hk : k ≤ xs.length) :
    xs.take k ++ x :: xs.drop k = xs.insertIdx k x := by
  induction xs generalizing k with
  | nil =>
    obtain rfl : k = 0 := Nat.le_zero.mp hk
    rfl
  | cons y ys ih =>
    cases k with
    | zero => rfl
    | succ k => exact congrArg (y :: ·) (ih (Nat.le_of_succ_le_succ hk))

variable (id : Nat) (s : Store)

theorem carryOut_at :
    carryOut (atPosition (.array id vs) (.int i)) s =
      .done (elementAt vs (placeOf i vs.length)) s := by
  rw [← elementAt_placeOf]
  rfl

/-- A function that makes an array at a place fails where the position means none. -/
theorem carryOut_place (position : Int64) {inside : Prop} [Decidable inside] (place : Nat)
    (f : Nat → List Value) :
    carryOut (do
      let k ← placeOrFail position (if inside then some place else none)
      return .array (f k)) s =
      if inside then madeArray s (f place) else .failed (.indexOutOfRange position) s := by
  by_cases h : inside
  · rw [if_pos h, if_pos h]
    rfl
  · rw [if_neg h, if_neg h]
    rfl

theorem carryOut_setAt :
    carryOut (setAtPosition (.array id vs) (.int i) x) s =
      if 0 ≤ placeOf i vs.length ∧ placeOf i vs.length < vs.length then
        madeArray s (vs.set (placeOf i vs.length).toNat x)
      else .failed (.indexOutOfRange i) s := by
  rw [← carryOut_place s i _ fun k => vs.set k x, ← element?_eq_ite]
  rfl

theorem carryOut_remove :
    carryOut (removeAtPosition (.array id vs) (.int i)) s =
      if 0 ≤ placeOf i vs.length ∧ placeOf i vs.length < vs.length then
        madeArray s (vs.eraseIdx (placeOf i vs.length).toNat)
      else .failed (.indexOutOfRange i) s := by
  rw [← carryOut_place s i _ fun k => vs.eraseIdx k, ← element?_eq_ite]
  rfl

theorem carryOut_insert :
    carryOut (insertAtPosition (.array id vs) (.int i) x) s =
      if 0 ≤ placeOf i vs.length ∧ placeOf i vs.length ≤ vs.length then
        madeArray s (vs.insertIdx (placeOf i vs.length).toNat x)
      else .failed (.indexOutOfRange i) s := by
  have hrun : carryOut (insertAtPosition (.array id vs) (.int i) x) s =
      if 0 ≤ placeOf i vs.length ∧ placeOf i vs.length ≤ vs.length then
        madeArray s (vs.take (placeOf i vs.length).toNat ++ x :: vs.drop (placeOf i vs.length).toNat)
      else .failed (.indexOutOfRange i) s := by
    rw [← carryOut_place s i _ fun k => vs.take k ++ x :: vs.drop k, ← slot?_eq_ite]
    rfl
  rw [hrun]
  split
  · rw [take_append_cons_drop vs x (by omega)]
  · rfl

end Positions

/-- A position `i` in an array means the place `j`, for every function and for index expressions. What
    an element is read from gives `null` where there is no element; what makes an array fails there,
    over the position that it was given. -/
theorem array_positions (budget id : Nat) (vs : List Value) (i : Int64) (x : Value) (s : Store) :
    let n := vs.length
    let a : Value := .array id vs
    let call (b : Builtin) (args : List Value) : Run Value := apply (budget + 1) (.builtin b) args
    let place (k : Int64) : Int := if 0 ≤ k.toInt then k.toInt else n + k.toInt
    let j := place i
    (n ≤ Int64.maxValue.toInt → (if i < 0 then i + Int64.ofNat n else i).toInt = j) ∧
    (∀ target position span frame s₀ s₁, expression budget target frame s₀ = .done a s₁ →
      expression budget position frame s₁ = .done (.int i) s →
      expression (budget + 1) (.index target position span) frame s₀ = .done (elementAt vs j) s) ∧
    call .at [a, .int i] s = .done (elementAt vs j) s ∧
    call .setAt [a, .int i, x] s =
      (if 0 ≤ j ∧ j < n then madeArray s (vs.set j.toNat x) else .failed (.indexOutOfRange i) s) ∧
    call .remove [a, .int i] s =
      (if 0 ≤ j ∧ j < n then madeArray s (vs.eraseIdx j.toNat) else .failed (.indexOutOfRange i) s) ∧
    call .insert [a, .int i, x] s =
      (if 0 ≤ j ∧ j ≤ n then madeArray s (vs.insertIdx j.toNat x)
      else .failed (.indexOutOfRange i) s) ∧
    (∀ b t k, call .insert [a, .int i, x] s = .done b t → k.toInt = j →
      call .remove [b, .int k] t = madeArray t vs) ∧
    (∀ b t k, call .setAt [a, .int i, x] s = .done b t →
      call .at [b, .int k] t = .done (if place k = j then x else elementAt vs (place k)) t) := by
  intro n a call place j
  have hplace : ∀ k, place k = placeOf k n := fun k => (placeOf_eq_ite k n).symm
  have hj : j = placeOf i n := hplace i
  have hset : call .setAt [a, .int i, x] s =
      if 0 ≤ j ∧ j < n then madeArray s (vs.set j.toNat x)
      else .failed (.indexOutOfRange i) s := by
    rw [hj]
    exact carryOut_setAt vs i x id s
  have hinsert : call .insert [a, .int i, x] s =
      if 0 ≤ j ∧ j ≤ n then madeArray s (vs.insertIdx j.toNat x)
      else .failed (.indexOutOfRange i) s := by
    rw [hj]
    exact carryOut_insert vs i x id s
  refine ⟨?wraps, ?index, ?«at», hset, ?remove, hinsert, ?undo, ?read⟩
  case wraps =>
    intro hn
    rw [hj, placeOf_eq_toInt i n hn]
  case index =>
    intro target position span frame s₀ s₁ htarget hposition
    have hrun : expression (budget + 1) (.index target position span) frame s₀ =
        indexValue a (.int i) s := (Run.bind_done htarget).trans (Run.bind_done hposition)
    rw [hrun, hj, ← elementAt_placeOf]
    rfl
  case «at» =>
    rw [hj]
    exact carryOut_at vs i id s
  case remove =>
    rw [hj]
    exact carryOut_remove vs i id s
  case undo =>
    intro b t k hrun hk
    rw [hinsert] at hrun
    by_cases h : 0 ≤ j ∧ j ≤ n
    · rw [if_pos h] at hrun
      obtain ⟨rfl, rfl⟩ := Outcome.done.inj hrun
      -- the array has grown, and only from the front does a position still mean the same place
      have hlength : (vs.insertIdx j.toNat x).length = n + 1 :=
        List.length_insertIdx_of_le_length (show j.toNat ≤ vs.length by omega) x
      have hk : placeOf k (vs.insertIdx j.toNat x).length = j := by
        rw [placeOf_of_nonneg _ (by omega), hk]
      have hremove := carryOut_remove (vs.insertIdx j.toNat x) k s.fresh
        { s with fresh := s.fresh + 1 }
      rw [hk, if_pos (by omega), List.eraseIdx_insertIdx_self] at hremove
      exact hremove
    · rw [if_neg h] at hrun
      cases hrun
  case read =>
    intro b t k hrun
    rw [hset] at hrun
    by_cases h : 0 ≤ j ∧ j < n
    · rw [if_pos h] at hrun
      obtain ⟨rfl, rfl⟩ := Outcome.done.inj hrun
      have hread := carryOut_at (vs.set j.toNat x) k s.fresh { s with fresh := s.fresh + 1 }
      rw [List.length_set, ← hplace, elementAt_set vs x h.1 h.2] at hread
      exact hread
    · rw [if_neg h] at hrun
      cases hrun

/-- In `[1, 2, 3]` the position `-1` is that of `3`. -/
theorem array_positions_last :
    let at0 : Span := ⟨0, 1⟩
    let literal : Expr := .array [.int 1 "1" at0, .int 2 "2" at0, .int 3 "3" at0] at0
    let last : Expr := .unary .neg (.int 1 "1" at0) at0
    let a : Value := .array 0 [.int 1, .int 2, .int 3]
    let s : Store := { Store.empty with fresh := 1 }
    let call (b : Builtin) (args : List Value) : Run Value := apply 3 (.builtin b) args
    3 ≤ Int64.maxValue.toInt ∧ ((-1 : Int64) + Int64.ofNat 3).toInt = 2 ∧
    expression 2 literal 0 .empty = .done a s ∧ expression 2 last 0 s = .done (.int (-1)) s ∧
    expression 3 (.index literal last at0) 0 .empty = .done (.int 3) s ∧
    ∃ b t c u, call .insert [a, .int (-1), .int 9] s = .done b t ∧
      call .remove [b, .int 2] t = madeArray t [.int 1, .int 2, .int 3] ∧
      call .setAt [a, .int (-1), .int 9] s = .done c u ∧
      call .at [c, .int 2] u = .done (.int 9) u ∧ call .at [c, .int (-2)] u = .done (.int 2) u := by
  intro at0 literal last a s call
  have hn : 3 ≤ Int64.maxValue.toInt := by decide
  have hliteral : expression 2 literal 0 .empty = .done a s := rfl
  have hlast : expression 2 last 0 s = .done (.int (-1)) s := rfl
  have hinsert : call .insert [a, .int (-1), .int 9] s =
      madeArray s [.int 1, .int 2, .int 9, .int 3] := rfl
  have hset : call .setAt [a, .int (-1), .int 9] s = madeArray s [.int 1, .int 2, .int 9] := rfl
  obtain ⟨hwraps, hindex, -, -, -, -, hundo, hread⟩ :=
    array_positions 2 0 [.int 1, .int 2, .int 3] (-1) (.int 9) s
  exact ⟨hn, hwraps hn, hliteral, hlast, hindex literal last at0 0 .empty s hliteral hlast, _, _, _, _,
    hinsert, hundo _ _ 2 hinsert rfl, hset, hread _ _ 2 hset, hread _ _ (-2) hset⟩

/-! ## Strings and the arrays of their characters -/

/-- The characters of a string, as strings. -/
def characters (text : String) : List Value := text.toList.map oneChar

/-- A function of sequences with its arguments after the sequence. New elements are characters. -/
inductive Operation where
  | len
  | first
  | last
  | at (position : Int64)
  | rest
  | init
  | pop
  | popFront
  | reverse
  | setAt (position : Int64) (c : Char)
  | remove (position : Int64)
  | insert (position : Int64) (c : Char)
  | push (c : Char)
  | pushFront (c : Char)

namespace Operation

def builtin : Operation → Builtin
  | len => .len
  | first => .first
  | last => .last
  | .at _ => .at
  | rest => .rest
  | init => .init
  | pop => .pop
  | popFront => .popFront
  | reverse => .reverse
  | setAt _ _ => .setAt
  | remove _ => .remove
  | insert _ _ => .insert
  | push _ => .push
  | pushFront _ => .pushFront

def arguments : Operation → List Value
  | .at i | remove i => [.int i]
  | setAt i c | insert i c => [.int i, oneChar c]
  | push c | pushFront c => [oneChar c]
  | _ => []

/-- What is given is the length or an element, and not another sequence. -/
def reads : Operation → Bool
  | len | first | last | .at _ => true
  | _ => false

/-- A call with a sequence. -/
def call (op : Operation) (budget : Nat) (v : Value) : Run Value :=
  apply (budget + 1) (.builtin op.builtin) (v :: op.arguments)

end Operation

/-- How an operation ends on a string and on the array of its characters: with the same failure or with
    `null`; else with the same value if it reads, and with a string and the array of that string's
    characters if it does not. -/
inductive Alike (s : Store) : Bool → Outcome Value → Outcome Value → Prop
  | failed (reads : Bool) (e : RuntimeError) : Alike s reads (.failed e s) (.failed e s)
  | null (reads : Bool) : Alike s reads (.done .null s) (.done .null s)
  | value (v : Value) : Alike s true (.done v s) (.done v s)
  | text (t : String) : Alike s false (.done (.str t) s) (madeArray s (characters t))

section Alike

variable (text : String) (id : Nat) (s : Store)

theorem length_characters : (characters text).length = text.toList.length :=
  List.length_map oneChar

theorem alike_textOf (cs : List Char) :
    Alike s false (.done (textOf cs) s) (madeArray s (cs.map oneChar)) := by
  have h : Alike s false _ _ := .text (String.ofList cs)
  unfold characters at h
  rwa [String.toList_ofList] at h

theorem elementOf_alike (b : Builtin) {onValues : List Value → Option Value}
    {onChars : List Char → Option Char}
    (h : ∀ cs : List Char, onValues (cs.map oneChar) = (onChars cs).map oneChar) :
    Alike s true (carryOut (elementOf b onValues onChars (.str text)) s)
      (carryOut (elementOf b onValues onChars (.array id (characters text))) s) := by
  have helements : carryOut (elementOf b onValues onChars (.array id (characters text))) s =
      .done (((onChars text.toList).map oneChar).getD .null) s := by
    rw [← h]
    rfl
  rw [helements]
  exact .value _

theorem partOf_alike (b : Builtin) {onValues : List Value → List Value}
    {onChars : List Char → List Char}
    (h : ∀ cs : List Char, onValues (cs.map oneChar) = (onChars cs).map oneChar) :
    Alike s false (carryOut (partOf b onValues onChars (.str text)) s)
      (carryOut (partOf b onValues onChars (.array id (characters text))) s) := by
  unfold partOf sequenceOf Sequence.ofValue? characters
  dsimp only
  cases text.toList with
  | nil => exact .null false
  | cons c cs =>
    have hpart := alike_textOf s (onChars (c :: cs))
    rw [← h] at hpart
    exact hpart

theorem atPosition_alike (i : Int64) :
    Alike s true (carryOut (atPosition (.str text) (.int i)) s)
      (carryOut (atPosition (.array id (characters text)) (.int i)) s) := by
  have hread : ((element? i (characters text).length).bind ((characters text)[·]?)).getD .null =
      (((element? i text.toList.length).bind (text.toList[·]?)).map oneChar).getD .null := by
    rw [length_characters]
    unfold characters
    cases element? i text.toList.length with
    | none => rfl
    | some k => rw [Option.bind_some, Option.bind_some, List.getElem?_map]
  have helements : carryOut (atPosition (.array id (characters text)) (.int i)) s = .done _ s :=
    congrArg (Outcome.done · s) hread
  rw [helements]
  exact .value _

/-- Both fail where a position means no place, and else the same is done at the place. -/
theorem place_alike (i : Int64) (place : Option Nat) {onValues : Nat → List Value}
    {onChars : Nat → List Char} (h : ∀ k, onValues k = (onChars k).map oneChar) :
    Alike s false
      (carryOut (do let k ← placeOrFail i place; return .value (textOf (onChars k))) s)
      (carryOut (do let k ← placeOrFail i place; return .array (onValues k)) s) := by
  cases place with
  | none => exact .failed false _
  | some k =>
    have hmade := alike_textOf s (onChars k)
    rw [← h] at hmade
    exact hmade

theorem replacementOf_oneChar (c : Char) : replacementOf (String.singleton c) = .ok c := by
  unfold replacementOf
  rw [String.toList_singleton]

theorem setAtPosition_alike (i : Int64) (c : Char) :
    Alike s false (carryOut (setAtPosition (.str text) (.int i) (oneChar c)) s)
      (carryOut (setAtPosition (.array id (characters text)) (.int i) (oneChar c)) s) := by
  have hset : ∀ k, (characters text).set k (oneChar c) = (text.toList.set k c).map oneChar :=
    fun k => List.map_set.symm
  have hchars : setAtPosition (.str text) (.int i) (oneChar c) = do
      let d ← replacementOf (String.singleton c)
      let k ← placeOrFail i (element? i text.toList.length)
      return .value (textOf (text.toList.set k d)) := rfl
  have h := place_alike s i (element? i (characters text).length) hset
  rw [hchars, replacementOf_oneChar, ← length_characters]
  exact h

theorem removeAtPosition_alike (i : Int64) :
    Alike s false (carryOut (removeAtPosition (.str text) (.int i)) s)
      (carryOut (removeAtPosition (.array id (characters text)) (.int i)) s) := by
  have hremove : ∀ k, (characters text).eraseIdx k = (text.toList.eraseIdx k).map oneChar :=
    eraseIdx_map oneChar text.toList
  have hchars : removeAtPosition (.str text) (.int i) = do
      let k ← placeOrFail i (element? i text.toList.length)
      return .value (textOf (text.toList.eraseIdx k)) := rfl
  have h := place_alike s i (element? i (characters text).length) hremove
  rw [hchars, ← length_characters]
  exact h

theorem insertAtPosition_alike (i : Int64) (c : Char) :
    Alike s false (carryOut (insertAtPosition (.str text) (.int i) (oneChar c)) s)
      (carryOut (insertAtPosition (.array id (characters text)) (.int i) (oneChar c)) s) := by
  have hinsert : ∀ k, (characters text).take k ++ oneChar c :: (characters text).drop k =
      (text.toList.take k ++ [c] ++ text.toList.drop k).map oneChar := by
    intro k
    unfold characters
    rw [List.map_append, List.map_append, List.map_take, List.map_drop, List.append_assoc]
    rfl
  have hchars : insertAtPosition (.str text) (.int i) (oneChar c) = do
      let k ← placeOrFail i (slot? i text.toList.length)
      return .value (textOf (text.toList.take k ++ (String.singleton c).toList ++
        text.toList.drop k)) := rfl
  have h := place_alike s i (slot? i (characters text).length) hinsert
  rw [hchars, ← length_characters, String.toList_singleton]
  exact h

theorem pushBack_alike (c : Char) :
    Alike s false (carryOut (pushBack (.str text) (oneChar c)) s)
      (carryOut (pushBack (.array id (characters text)) (oneChar c)) s) := by
  have hchars : carryOut (pushBack (.str text) (oneChar c)) s =
      .done (textOf (text.toList ++ (String.singleton c).toList)) s := rfl
  have h := alike_textOf s (text.toList ++ [c])
  rw [List.map_append] at h
  rw [hchars, String.toList_singleton]
  exact h

theorem pushFront_alike (c : Char) :
    Alike s false (carryOut (pushFront (.str text) (oneChar c)) s)
      (carryOut (pushFront (.array id (characters text)) (oneChar c)) s) := by
  have hchars : carryOut (pushFront (.str text) (oneChar c)) s =
      .done (textOf ((String.singleton c).toList ++ text.toList)) s := rfl
  rw [hchars, String.toList_singleton]
  exact alike_textOf s (c :: text.toList)

theorem reverseOf_alike :
    Alike s false (carryOut (reverseOf (.str text)) s)
      (carryOut (reverseOf (.array id (characters text))) s) := by
  have h := alike_textOf s text.toList.reverse
  rw [List.map_reverse] at h
  exact h

theorem lenOf_alike :
    Alike s true (carryOut (lenOf (.str text)) s)
      (carryOut (lenOf (.array id (characters text))) s) := by
  have helements : carryOut (lenOf (.array id (characters text))) s =
      .done (.int (Int64.ofNat (characters text).length)) s := rfl
  rw [helements, length_characters]
  exact .value _

end Alike

/-- Every operation ends alike on a string and on the array of its characters, which is the array that
    the string is converted to. -/
theorem characters_alike (budget id : Nat) (text : String) (op : Operation) (s : Store) :
    (∀ t, apply (budget + 1) (.builtin .array) [.str t] s = madeArray s (characters t)) ∧
      Alike s op.reads (op.call budget (.str text) s)
        (op.call budget (.array id (characters text)) s) := by
  refine ⟨fun t => rfl, ?_⟩
  cases op with
  | len => exact lenOf_alike text id s
  | first => exact elementOf_alike text id s .first fun cs => List.head?_map
  | last => exact elementOf_alike text id s .last fun cs => List.getLast?_map
  | «at» i => exact atPosition_alike text id s i
  | rest => exact partOf_alike text id s .rest fun cs => List.map_tail.symm
  | init => exact partOf_alike text id s .init fun cs => List.map_dropLast.symm
  | pop => exact partOf_alike text id s .pop fun cs => List.map_dropLast.symm
  | popFront => exact partOf_alike text id s .popFront fun cs => List.map_tail.symm
  | reverse => exact reverseOf_alike text id s
  | setAt i c => exact setAtPosition_alike text id s i c
  | remove i => exact removeAtPosition_alike text id s i
  | insert i c => exact insertAtPosition_alike text id s i c
  | push c => exact pushBack_alike text id s c
  | pushFront c => exact pushFront_alike text id s c

example : (Operation.insert (-1) 'é').call 0 (.str "añb") .empty = .done (.str "añéb") .empty := by
  rfl

end Scriptlet.Eval
