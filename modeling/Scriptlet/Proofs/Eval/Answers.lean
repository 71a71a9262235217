import Scriptlet.Eval.Arithmetic
import Scriptlet.Eval.Builtins
import Scriptlet.Proofs.Value.Parts

/-!
# `Proofs.Eval.Answers` — what operators and builtin functions make values from

Operators give numbers, truth values and strings. Builtin functions give such values, and parts of
their arguments put together anew. So a property that holds of all such values and of everything inside
the arguments holds of everything inside an answer.

## Contents
- `Gives P`: a result of which `P` holds, or a failure.
- `applyBinary_scalar`, `applyUnary_scalar`: operators.
- `Answer.Every`: everything that an answer is made of has the property. There is one lemma for each
  function; `Builtin.answer_every` puts them together.
-/

namespace Scriptlet

namespace Eval

/-! ## Results -/

/-- What the result gives, if it gives anything, has the property. -/
def Gives {α : Type} (P : α → Prop) (r : Except RuntimeError α) : Prop := ∀ a, r = .ok a → P a

section Gives

variable {α β : Type} {P : α → Prop} {Q : β → Prop}

theorem gives_ok {a : α} (h : P a) : Gives P (.ok a) := by
  intro b hb
  cases hb
  exact h

theorem gives_error (e : RuntimeError) : Gives P (.error e) := by
  intro a ha
  cases ha

theorem Gives.bind {r : Except RuntimeError α} {f : α → Except RuntimeError β} (h : Gives P r)
    (hf : ∀ a, P a → Gives Q (f a)) : Gives Q (r >>= f) := by
  cases r with
  | error e => exact gives_error e
  | ok a => exact hf a (h a rfl)

/-- A part whose result does not matter. -/
theorem gives_bind {r : Except RuntimeError α} {f : α → Except RuntimeError β}
    (hf : ∀ a, Gives Q (f a)) : Gives Q (r >>= f) :=
  Gives.bind (P := fun _ => True) (fun _ _ => trivial) fun a _ => hf a

end Gives

/-! ## Operators -/

/-- The result, if there is one, is a scalar. -/
abbrev GivesScalar : Except RuntimeError Value → Prop := Gives fun v => v.isScalar = true

theorem integerOp_scalar (op : BinaryOp) (a b : Int64) : GivesScalar (integerOp op a b) := by
  have hint : ∀ i, GivesScalar (.ok (.int i)) := fun i => gives_ok rfl
  have hbool : ∀ t, GivesScalar (.ok (.bool t)) := fun t => gives_ok rfl
  -- divisions, powers and shifts fail for some operands, the connectives for all of them
  cases op <;> unfold integerOp
  case add | sub | mul | bitXor => exact hint _
  case div | floorDiv | rem | pow | shiftLeft | shiftRight =>
    dsimp only
    split
    · first | exact hint _ | exact gives_error _
    · first | exact hint _ | exact gives_error _
  case less | lessEqual | greater | greaterEqual | equal | notEqual => exact hbool _
  case assign | and | or => exact gives_error _

theorem floatOp_scalar {op : BinaryOp} {x y : Float} {v : Value} (h : floatOp op x y = some v) :
    v.isScalar = true := by
  cases op <;> simp only [floatOp, Option.some.injEq, reduceCtorEq] at h <;> subst h <;> rfl

theorem stringOp_scalar {op : BinaryOp} {s t : String} {v : Value} (h : stringOp op s t = some v) :
    v.isScalar = true := by
  cases op <;> simp only [stringOp, Option.some.injEq, reduceCtorEq] at h <;> subst h <;> rfl

theorem orUnknown_scalar {op : BinaryOp} {left right : Value} {result : Option Value}
    (h : ∀ v, result = some v → v.isScalar = true) :
    GivesScalar (orUnknown op left right result) := by
  unfold orUnknown
  split
  · next v => exact gives_ok (h v rfl)
  · exact gives_error _

theorem otherOp_scalar (op : BinaryOp) (left right : Value) :
    GivesScalar (otherOp op left right) := by
  unfold otherOp
  split
  · exact gives_ok rfl
  · exact gives_ok rfl
  · split
    · exact gives_error _
    · exact gives_error _

/-- Operators compute numbers, truth values and strings. -/
theorem applyBinary_scalar (op : BinaryOp) (left right : Value) :
    GivesScalar (applyBinary op left right) := by
  unfold applyBinary
  split
  · exact integerOp_scalar op _ _
  · exact orUnknown_scalar fun v => stringOp_scalar
  · split
    · exact orUnknown_scalar fun v => floatOp_scalar
    · exact otherOp_scalar op _ _

theorem applyUnary_scalar (op : UnaryOp) (operand : Value) :
    GivesScalar (applyUnary op operand) := by
  unfold applyUnary
  split
  · exact gives_ok rfl
  · exact gives_ok rfl
  · exact gives_ok rfl
  · exact gives_error _

/-! ## Builtin functions -/

/-- Everything inside what the answer is made of has the property. -/
def Answer.Every (P : Value → Prop) : Answer → Prop
  | .value v => v.Every P
  | .array vs => AllEvery P vs
  | .table rows => ∀ row ∈ rows, AllEvery P row
  | .hash ps => ps.Every P
  | .line _ => True

/-- The result, if there is one, is an answer of which this holds. -/
abbrev Answers (P : Value → Prop) : Result → Prop := Gives (Answer.Every P)

variable {P : Value → Prop}

/-! ### Arguments -/

theorem element_mem {vs : List Value} {o : Option Nat} {v : Value}
    (h : o.bind (vs[·]?) = some v) : v ∈ vs := by
  obtain ⟨i, -, hi⟩ := Option.bind_eq_some_iff.mp h
  exact List.mem_of_getElem? hi

theorem one_answers {args : List Value} {f : Value → Result} (h : AllEvery P args)
    (hf : ∀ v, v.Every P → Answers P (f v)) : Answers P (one args f) := by
  unfold one
  split
  · exact hf _ (h _ (by simp))
  · exact gives_error _

theorem two_answers {args : List Value} {f : Value → Value → Result} (h : AllEvery P args)
    (hf : ∀ v w, v.Every P → w.Every P → Answers P (f v w)) : Answers P (two args f) := by
  unfold two
  split
  · exact hf _ _ (h _ (by simp)) (h _ (by simp))
  · exact gives_error _

theorem three_answers {args : List Value} {f : Value → Value → Value → Result}
    (h : AllEvery P args)
    (hf : ∀ v w x, v.Every P → w.Every P → x.Every P → Answers P (f v w x)) :
    Answers P (three args f) := by
  unfold three
  split
  · exact hf _ _ _ (h _ (by simp)) (h _ (by simp)) (h _ (by simp))
  · exact gives_error _

/-- A function of a sequence, by whether its subject is an array or a string. -/
theorem sequence_answers {v : Value} {b : Builtin} {f : Sequence → Result} (h : v.Every P)
    (helements : ∀ vs, AllEvery P vs → Answers P (f (.elements vs)))
    (hcharacters : ∀ cs, Answers P (f (.characters cs))) : Answers P (sequenceOf b v >>= f) := by
  -- nothing has to be known of a string, which has nothing inside
  refine Gives.bind (P := fun s => ∀ vs, s = .elements vs → AllEvery P vs) ?_ fun s hs => ?_
  · unfold sequenceOf
    split
    · next s hs =>
      refine gives_ok fun vs hvs => ?_
      subst hvs
      cases v <;> simp only [Sequence.ofValue?, Option.some.injEq, Sequence.elements.injEq,
        reduceCtorEq] at hs
      subst hs
      exact h.elements
    · exact gives_error _
  · cases s with
    | elements vs => exact helements vs (hs vs rfl)
    | characters cs => exact hcharacters cs

/-- A function of a hash's pairs. -/
theorem pairs_answers {v : Value} {role : Role} {b : Builtin} {f : Pairs → Result} (h : v.Every P)
    (hf : ∀ ps, ps.Every P → Answers P (f ps)) : Answers P (pairsOf role b v >>= f) := by
  refine Gives.bind (P := Pairs.Every P) ?_ hf
  unfold pairsOf
  split
  · exact gives_ok h.pairs
  · exact gives_error _

/-! ### Hashes -/

theorem entriesOf_answers {v : Value} (h : v.Every P) : Answers P (entriesOf v) := by
  refine pairs_answers h fun ps hps => gives_ok fun row hrow => ?_
  obtain ⟨p, hp, rfl⟩ := List.mem_map.mp hrow
  exact (allEvery_nil.cons (hps p hp).2).cons (hps p hp).1

theorem setKeyOf_answers {v key new : Value} (h : v.Every P) (hkey : key.Every P)
    (hnew : new.Every P) : Answers P (setKeyOf v key new) :=
  pairs_answers h fun _ hps => gives_bind fun k => gives_ok (Pairs.every_insertAt hps k hkey hnew)

theorem deleteKeyOf_answers {v key : Value} (h : v.Every P) : Answers P (deleteKeyOf v key) :=
  pairs_answers h fun _ hps => gives_bind fun k => gives_ok (Pairs.every_removeAt hps k)

/-! ### Answers of scalars -/

variable (hP : ∀ v : Value, v.isScalar = true → P v)

include hP

theorem answers_scalar {v : Value} (h : v.isScalar = true) : Answers P (.ok (.value v)) :=
  gives_ok (Value.every_scalar h (hP v h))

theorem answers_text (cs : List Char) : Answers P (.ok (.value (textOf cs))) :=
  answers_scalar hP rfl

theorem every_oneChar (c : Char) : (oneChar c).Every P := Value.every_scalar rfl (hP _ rfl)

theorem every_oneChar? (o : Option Char) : ((o.map oneChar).getD .null).Every P := by
  cases o with
  | none => exact Value.every_scalar rfl (hP _ rfl)
  | some c => exact every_oneChar hP c

/-! ### Sequences -/

theorem elementOf_answers {b : Builtin} {onValues : List Value → Option Value}
    {onChars : List Char → Option Char} {v : Value} (h : v.Every P)
    (hmem : ∀ vs w, onValues vs = some w → w ∈ vs) : Answers P (elementOf b onValues onChars v) := by
  refine sequence_answers h (fun vs hvs => ?_) fun cs => ?_
  · exact gives_ok (hvs.getD (hP _ rfl) (hmem vs))
  · exact gives_ok (every_oneChar? hP (onChars cs))

theorem partOf_answers {b : Builtin} {onValues : List Value → List Value}
    {onChars : List Char → List Char} {v : Value} (h : v.Every P)
    (hmem : ∀ vs, ∀ w ∈ onValues vs, w ∈ vs) : Answers P (partOf b onValues onChars v) := by
  refine sequence_answers h (fun vs hvs => ?_) fun cs => ?_
  · cases vs with
    | nil => exact answers_scalar hP rfl
    | cons w ws => exact gives_ok (hvs.of_subset (hmem _))
  · cases cs with
    | nil => exact answers_scalar hP rfl
    | cons c cs => exact answers_text hP _

theorem atPosition_answers {v position : Value} (h : v.Every P) :
    Answers P (atPosition v position) := by
  refine sequence_answers h (fun vs hvs => gives_bind fun i => ?_) fun cs => gives_bind fun i => ?_
  · exact gives_ok (hvs.getD (hP _ rfl) fun w hw => element_mem hw)
  · exact gives_ok (every_oneChar? hP ((element? i cs.length).bind (cs[·]?)))

theorem setAtPosition_answers {v position new : Value} (h : v.Every P) (hnew : new.Every P) :
    Answers P (setAtPosition v position new) := by
  refine sequence_answers h (fun vs hvs => gives_bind fun i => gives_bind fun place => ?_) fun cs => ?_
  · refine gives_ok fun w hw => ?_
    rcases List.mem_or_eq_of_mem_set hw with hw | rfl
    · exact hvs w hw
    · exact hnew
  · refine gives_bind fun i => gives_bind fun s => gives_bind fun c => gives_bind fun place => ?_
    exact answers_text hP _

theorem pushBack_answers {v new : Value} (h : v.Every P) (hnew : new.Every P) :
    Answers P (pushBack v new) := by
  refine sequence_answers h (fun vs hvs => gives_ok fun w hw => ?_) fun cs => ?_
  · rcases List.mem_append.mp hw with hw | hw
    · exact hvs w hw
    · rw [List.mem_singleton.mp hw]
      exact hnew
  · exact gives_bind fun s => answers_text hP _

theorem pushFront_answers {v new : Value} (h : v.Every P) (hnew : new.Every P) :
    Answers P (pushFront v new) :=
  sequence_answers h (fun _ hvs => gives_ok (hvs.cons hnew)) fun _ => gives_bind fun _ =>
    answers_text hP _

theorem insertAtPosition_answers {v position new : Value} (h : v.Every P) (hnew : new.Every P) :
    Answers P (insertAtPosition v position new) := by
  refine sequence_answers h (fun vs hvs => gives_bind fun i => gives_bind fun place => ?_) fun cs => ?_
  · refine gives_ok fun w hw => ?_
    rcases List.mem_append.mp hw with hw | hw
    · exact hvs w (List.mem_of_mem_take hw)
    · exact (hvs.of_subset fun _ => List.mem_of_mem_drop).cons hnew w hw
  · refine gives_bind fun i => gives_bind fun s => gives_bind fun place => ?_
    exact answers_text hP _

theorem removeAtPosition_answers {v position : Value} (h : v.Every P) :
    Answers P (removeAtPosition v position) := by
  refine sequence_answers h (fun vs hvs => gives_bind fun i => gives_bind fun place => ?_) fun cs => ?_
  · exact gives_ok (hvs.of_subset fun _ => List.mem_of_mem_eraseIdx)
  · exact gives_bind fun i => gives_bind fun place => answers_text hP _

theorem reverseOf_answers {v : Value} (h : v.Every P) : Answers P (reverseOf v) :=
  sequence_answers h (fun _ hvs => gives_ok (hvs.of_subset fun _ => List.mem_reverse.mp)) fun _ =>
    answers_text hP _

/-! ### Other subjects -/

theorem lenOf_answers (v : Value) : Answers P (lenOf v) := by
  unfold lenOf
  dsimp only
  split
  · exact answers_scalar hP rfl
  · exact answers_scalar hP rfl
  · exact answers_scalar hP rfl
  · exact gives_error _

theorem toArray_answers {v : Value} (h : v.Every P) : Answers P (toArray v) := by
  unfold toArray
  split
  · exact gives_ok h
  · refine gives_ok fun v hv => ?_
    obtain ⟨c, -, rfl⟩ := List.mem_map.mp hv
    exact every_oneChar hP c
  · exact gives_error _

theorem charOf_answers (v : Value) : Answers P (charOf v) := by
  unfold charOf
  split
  · split
    · exact answers_scalar hP rfl
    · exact gives_error _
  · exact gives_error _

theorem codeOf_answers (v : Value) : Answers P (codeOf v) := by
  refine gives_bind fun s => ?_
  split
  · exact answers_scalar hP rfl
  · exact gives_error _

theorem splitWith_answers (b : Builtin) (pieces : String → String → List (List Char))
    (v separator : Value) : Answers P (splitWith b pieces v separator) := by
  refine gives_bind fun s => gives_bind fun sep => gives_ok fun w hw => ?_
  obtain ⟨piece, -, rfl⟩ := List.mem_map.mp hw
  exact Value.every_scalar rfl (hP _ rfl)

theorem joinWith_answers (v separator : Value) : Answers P (joinWith v separator) := by
  unfold joinWith
  split
  · exact gives_bind fun sep => gives_bind fun parts => answers_scalar hP rfl
  · exact gives_error _

end Eval

open Eval

/-- A builtin function answers with parts of its arguments and with scalars. -/
theorem Builtin.answer_every {P : Value → Prop} (hP : ∀ v : Value, v.isScalar = true → P v)
    (b : Builtin) {args : List Value} (h : AllEvery P args) : Answers P (b.answer args) := by
  have hyes : ∀ t, Answers P (yesNo t) := fun t => answers_scalar hP rfl
  -- only functions that hand elements, keys or values on need to know where these come from
  cases b with
  | len => exact one_answers h fun v _ => lenOf_answers hP v
  | print => exact gives_ok trivial
  | type => exact one_answers h fun v _ => answers_scalar hP rfl
  | isInt | isFloat | isBool | isString | isArray | isHash | isNull | isFunction =>
    exact one_answers h fun v _ => hyes _
  | int => exact one_answers h fun v _ => gives_bind fun i => answers_scalar hP rfl
  | float => exact one_answers h fun v _ => gives_bind fun x => answers_scalar hP rfl
  | string => exact one_answers h fun v _ => answers_scalar hP rfl
  | array => exact one_answers h fun v hv => toArray_answers hP hv
  | bool => exact one_answers h fun v _ => hyes _
  | first => exact one_answers h fun v hv => elementOf_answers hP hv fun _ _ => List.mem_of_head?
  | last => exact one_answers h fun v hv => elementOf_answers hP hv fun _ _ => List.mem_of_getLast?
  | rest | popFront =>
    exact one_answers h fun v hv => partOf_answers hP hv fun _ _ => List.mem_of_mem_tail
  | init | pop =>
    exact one_answers h fun v hv => partOf_answers hP hv fun vs _ hw => List.dropLast_subset vs hw
  | «at» => exact two_answers h fun v w hv _ => atPosition_answers hP hv
  | setAt => exact three_answers h fun v w x hv _ hx => setAtPosition_answers hP hv hx
  | push => exact two_answers h fun v w hv hw => pushBack_answers hP hv hw
  | pushFront => exact two_answers h fun v w hv hw => pushFront_answers hP hv hw
  | insert => exact three_answers h fun v w x hv _ hx => insertAtPosition_answers hP hv hx
  | remove => exact two_answers h fun v w hv _ => removeAtPosition_answers hP hv
  | reverse => exact one_answers h fun v hv => reverseOf_answers hP hv
  | keys =>
    exact one_answers h fun v hv => pairs_answers hv fun ps hps => gives_ok (Pairs.every_keys hps)
  | values =>
    exact one_answers h fun v hv => pairs_answers hv fun ps hps => gives_ok (Pairs.every_values hps)
  | entries => exact one_answers h fun v hv => entriesOf_answers hv
  | hasKey =>
    exact two_answers h fun v w hv _ => pairs_answers hv fun ps _ => gives_bind fun k => hyes _
  | set => exact three_answers h fun v w x hv hw hx => setKeyOf_answers hv hw hx
  | delete => exact two_answers h fun v w hv _ => deleteKeyOf_answers hv
  | char => exact one_answers h fun v _ => charOf_answers hP v
  | ascii => exact one_answers h fun v _ => codeOf_answers hP v
  | split | splitOnce => exact two_answers h fun v w _ _ => splitWith_answers hP _ _ v w
  | join => exact two_answers h fun v w _ _ => joinWith_answers hP v w

end Scriptlet
