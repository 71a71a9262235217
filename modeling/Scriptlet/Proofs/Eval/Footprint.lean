import Scriptlet.Proofs.Eval.Frames

/-!
# `Proofs.Eval.Footprint` — the frames that a run has to do with

A run reaches frames in three ways: outwards from the frame it stands in, into the frame of a function
that it calls, and by opening new ones. Functions come out of bindings of frames reached before. So a
set of frames that is closed under these ways, and has all frames still to come, is all that a run
reads or writes: other frames stay as they are, and what they hold makes no difference.

Two runs are followed side by side, from stores that agree on such a set. The second may have the
larger budget, so that the same proof says that a larger budget changes nothing.

## Contents
- `Store.Twins near`: stores that agree on the frames `near`, which are closed in the sense above.
- `Outcome.Follows`: the second run ends as the first one does, unless that one was starved.
- `Run.Follows`: so it is from all twins. `Run.Follows.bind` composes it; there is one lemma for each
  rule of the evaluator, and `rules_follow` for the recursive ones.
- `Eval.program_of_le`: a program that has ended ends in the same way with a larger budget.
- `Store.Reaches`: the frames reached from some others. `runs_local`: a run depends on these alone and
  touches no others.
-/

namespace Scriptlet

/-! ## Stores -/

namespace Store

/-- The stores differ at most in frames that are not `near`, and have the same number of them. -/
structure SameOn (near : Nat → Prop) (s s' : Store) : Prop where
  size : s'.frames.size = s.frames.size
  frames : ∀ i, near i → s'.frames[i]? = s.frames[i]?
  fresh : s'.fresh = s.fresh
  output : s'.output = s.output

/-- The stores agree on the frames `near`. These lie inside frames of this kind and bind values that
    close over no others, and all frames that are still to be opened are among them. -/
structure Twins (near : Nat → Prop) (s s' : Store) : Prop extends SameOn near s s' where
  outer : ∀ i j, near i → s.outer? i = some j → near j
  bound : ∀ i f, near i → s.frames[i]? = some f → ∀ b ∈ f.bindings, b.2.Over near
  later : ∀ i, s.frames.size ≤ i → near i

/-- The frames that are not `near` are the same afterwards. -/
def Spares (near : Nat → Prop) (s t : Store) : Prop := ∀ i, ¬ near i → t.frames[i]? = s.frames[i]?

variable {near : Nat → Prop} {s s' t u : Store}

theorem Spares.refl (s : Store) : s.Spares near s := fun _ _ => rfl

theorem Spares.trans (h : s.Spares near t) (h' : t.Spares near u) : s.Spares near u :=
  fun i hi => (h' i hi).trans (h i hi)

/-! ### Looking names up -/

section Lookup

variable (h : Twins near s s') {i : Nat} (hi : near i)

include h hi

theorem Twins.outer?_eq : s'.outer? i = s.outer? i := by
  unfold outer?
  rw [h.frames i hi]

theorem Twins.getIn?_eq (name : String) : s'.getIn? name i = s.getIn? name i := by
  unfold getIn?
  rw [h.frames i hi]

theorem Twins.chainFrom (n : Nat) :
    s'.chainFrom n i = s.chainFrom n i ∧ ∀ j ∈ s.chainFrom n i, near j := by
  induction n generalizing i with
  | zero => exact ⟨rfl, fun j hj => absurd hj List.not_mem_nil⟩
  | succ n ih =>
    unfold Store.chainFrom
    rw [h.outer?_eq hi]
    cases ho : s.outer? i with
    | none => exact ⟨rfl, fun j hj => List.mem_singleton.mp hj ▸ hi⟩
    | some k =>
      obtain ⟨heq, hnear⟩ := ih (h.outer i k hi ho)
      exact ⟨congrArg (i :: ·) heq, List.forall_mem_cons.mpr ⟨hi, hnear⟩⟩

theorem Twins.holder? (name : String) :
    s'.holder? i name = s.holder? i name ∧ ∀ j, s.holder? i name = some j → near j := by
  obtain ⟨heq, hnear⟩ := h.chainFrom hi (i + 1)
  unfold Store.holder? chain
  rw [heq]
  refine ⟨?_, fun j hj => hnear j (List.mem_of_find?_eq_some hj)⟩
  rw [← List.head?_filter, ← List.head?_filter]
  exact congrArg List.head? (List.filter_congr fun j hj => by rw [h.getIn?_eq (hnear j hj)])

theorem Twins.get? (name : String) :
    s'.get? i name = s.get? i name ∧ ∀ v, s.get? i name = some v → v.Over near := by
  obtain ⟨heq, hnear⟩ := h.chainFrom hi (i + 1)
  unfold Store.get? chain
  rw [heq]
  refine ⟨?_, fun v hv => ?_⟩
  · have hmap := List.map_congr_left fun j hj => h.getIn?_eq (hnear j hj) name
    have hfind := congrArg (List.findSome? id) hmap
    rw [List.findSome?_map, List.findSome?_map] at hfind
    exact hfind
  · obtain ⟨j, hj, hv⟩ := List.exists_of_findSome?_eq_some hv
    obtain ⟨f, hf, hlook⟩ := Option.bind_eq_some_iff.mp hv
    obtain ⟨l₁, l₂, hb, -⟩ := List.lookup_eq_some_iff.mp hlook
    exact h.bound j f (hnear j hj) hf (name, v) (by rw [hb]; simp)

end Lookup

/-! ### Changing frames -/

theorem spares_set {i : Nat} (hi : near i) (s : Store) (name : String) (v : Value) :
    s.Spares near (s.set i name v) := by
  intro j hj
  have hne : i ≠ j := fun hij => hj (hij ▸ hi)
  rw [frames_set]
  cases s.frames[j]? with
  | none => rfl
  | some f => simp [hne]

theorem Twins.set (h : s.Twins near s') (i : Nat) (name : String) {v : Value}
    (hv : v.Over near) : (s.set i name v).Twins near (s'.set i name v) where
  size := by rw [size_set, size_set, h.size]
  frames j hj := by rw [frames_set, frames_set, h.frames j hj]
  fresh := h.fresh
  output := h.output
  outer j k hj hk := h.outer j k hj (by rw [← hk, outer?_set])
  bound j f hj hf := by
    rw [frames_set] at hf
    obtain ⟨g, hg, rfl⟩ := Option.map_eq_some_iff.mp hf
    split
    · exact setBinding_every hv (h.bound j g hj hg)
    · exact h.bound j g hj hg
  later j hj := h.later j (by rw [size_set] at hj; exact hj)

theorem Twins.setAll (h : s.Twins near s') (i : Nat) {bs : List (String × Value)}
    (hbs : ∀ b ∈ bs, b.2.Over near) : (s.setAll i bs).Twins near (s'.setAll i bs) := by
  induction bs generalizing s s' with
  | nil => exact h
  | cons b bs ih =>
    obtain ⟨hb, hrest⟩ := List.forall_mem_cons.mp hbs
    exact ih (h.set i b.1 hb) hrest

theorem spares_setAll {i : Nat} (hi : near i) (s : Store) (bs : List (String × Value)) :
    s.Spares near (s.setAll i bs) := by
  induction bs generalizing s with
  | nil => exact .refl s
  | cons b bs ih => exact (spares_set hi s b.1 b.2).trans (ih _)

/-- A frame that is opened is near, as all that are still to come. -/
theorem Twins.openFrame (h : s.Twins near s') {outer : Nat} (ho : near outer) :
    (s.openFrame (some outer)).2.Twins near (s'.openFrame (some outer)).2 where
  size := by rw [size_openFrame, size_openFrame, h.size]
  frames i hi := by rw [frames_openFrame, frames_openFrame, h.size, h.frames i hi]
  fresh := h.fresh
  output := h.output
  outer i j hi hj := by
    unfold outer? at hj
    rw [frames_openFrame] at hj
    split at hj
    · cases hj
      exact ho
    · exact h.outer i j hi hj
  bound i f hi hf := by
    rw [frames_openFrame] at hf
    split at hf
    · cases hf
      exact fun b hb => absurd hb List.not_mem_nil
    · exact h.bound i f hi hf
  later i hi := h.later i (by rw [size_openFrame] at hi; omega)

theorem Twins.spares_openFrame (h : s.Twins near s') (outer : Option Nat) :
    s.Spares near (s.openFrame outer).2 := by
  intro i hi
  have hne : i ≠ s.frames.size := fun heq => hi (h.later i (Nat.le_of_eq heq.symm))
  rw [frames_openFrame, if_neg hne]

/-- A change of the identities given out and of the text printed. -/
theorem Twins.of_frames (h : s.Twins near s') (fresh : Nat) (output : String) :
    (Store.mk s.frames fresh output).Twins near (Store.mk s'.frames fresh output) :=
  ⟨⟨h.size, h.frames, rfl, rfl⟩, h.outer, h.bound, h.later⟩

/-! ### Making values -/

/-- What is made of an answer depends on the next identity alone. -/
theorem make_eq (a : Eval.Answer) (n : Nat) :
    ∃ v k text, ∀ s : Store, s.fresh = n →
      s.make a = (v, ⟨s.frames, k, s.output ++ text⟩) := by
  cases a with
  | value v => exact ⟨v, n, "", fun s hs => by rw [String.append_empty, ← hs]; rfl⟩
  | array vs =>
    exact ⟨.array n vs, n + 1, "", fun s hs => by rw [String.append_empty, ← hs]; rfl⟩
  | table rows =>
    refine ⟨.array (n + rows.length) (madeRows n rows), n + rows.length + 1, "", fun s hs => ?_⟩
    have htable : s.make (.table rows) = (s.makeRows rows).2.makeArray (s.makeRows rows).1 := rfl
    rw [htable, makeRows_eq, ← hs, String.append_empty]
    rfl
  | hash ps =>
    exact ⟨.hash n ps, n + 1, "", fun s hs => by rw [String.append_empty, ← hs]; rfl⟩
  | line text =>
    refine ⟨.null, n, text ++ "\n", fun s hs => ?_⟩
    rw [← String.append_assoc, ← hs]
    rfl

end Store

/-! ## Runs -/

/-- The second run ends as the first one does, with the same value of which `P` holds or for the same
    cause, in twins and with frames that are not near left alone. A starved run says nothing. -/
inductive Outcome.Follows {α : Type} (near : Nat → Prop) (P : α → Prop) (s : Store) :
    Outcome α → Outcome α → Prop
  | done {a : α} {t t' : Store} (ha : P a) (hst : s.Spares near t) (ht : t.Twins near t') :
      Follows near P s (.done a t) (.done a t')
  | left {v : Value} {t t' : Store} (hv : v.Over near) (hst : s.Spares near t)
      (ht : t.Twins near t') : Follows near P s (.left v t) (.left v t')
  | failed {e : RuntimeError} {t t' : Store} (hst : s.Spares near t) (ht : t.Twins near t') :
      Follows near P s (.failed e t) (.failed e t')
  | starved (o : Outcome α) : Follows near P s .starved o

theorem Outcome.Follows.after {α : Type} {near : Nat → Prop} {P : α → Prop} {s t : Store}
    {o o' : Outcome α} (h : o.Follows near P t o') (hst : s.Spares near t) :
    o.Follows near P s o' := by
  cases h with
  | done ha ht htwins => exact .done ha (hst.trans ht) htwins
  | left hv ht htwins => exact .left hv (hst.trans ht) htwins
  | failed ht htwins => exact .failed (hst.trans ht) htwins
  | starved => exact .starved _

/-- From all twins the second run ends as the first one does, unless that one is starved. -/
def Run.Follows {α : Type} (near : Nat → Prop) (P : α → Prop) (r r' : Run α) : Prop :=
  ∀ s s' : Store, s.Twins near s' → (r s).Follows near P s (r' s')

namespace Run

variable {α β : Type} {near : Nat → Prop} {P : α → Prop} {Q : β → Prop}

theorem Follows.bind {r r' : Run α} {f f' : α → Run β} (h : r.Follows near P r')
    (hf : ∀ a, P a → (f a).Follows near Q (f' a)) : (r >>= f).Follows near Q (r' >>= f') := by
  intro s s' hs
  have hr := h s s' hs
  rw [bind_apply, bind_apply]
  generalize r s = o at hr ⊢
  generalize r' s' = o' at hr ⊢
  cases hr with
  | done ha hst ht => exact (hf _ ha _ _ ht).after hst
  | left hv hst ht => exact .left hv hst ht
  | failed hst ht => exact .failed hst ht
  | starved => exact .starved _

theorem follows_pure {a : α} (ha : P a) : (pure a : Run α).Follows near P (pure a) :=
  fun s _ hs => .done ha (.refl s) hs

theorem follows_starve (r : Run α) : (starve : Run α).Follows near P r := fun _ _ _ => .starved _

theorem follows_fail (e : RuntimeError) : (fail e : Run α).Follows near P (fail e) :=
  fun s _ hs => .failed (.refl s) hs

theorem follows_leave {v : Value} (hv : v.Over near) :
    (leave v : Run α).Follows near P (leave v) :=
  fun s _ hs => .left hv (.refl s) hs

theorem follows_ofExcept {r : Except RuntimeError α} (h : Eval.Gives P r) :
    (ofExcept r).Follows near P (ofExcept r) := by
  cases r with
  | ok a => exact follows_pure (h a rfl)
  | error e => exact follows_fail e

/-- A scalar, or a failure. -/
theorem follows_scalar {r : Except RuntimeError Value} (h : Eval.GivesScalar r) :
    (ofExcept r).Follows near (Value.Over near) (ofExcept r) :=
  follows_ofExcept fun v hv => Value.over_scalar (h v hv)

theorem Follows.call {r r' : Run Value} (h : r.Follows near (Value.Over near) r') :
    r.call.Follows near (Value.Over near) r'.call := by
  intro s s' hs
  have hr := h s s' hs
  unfold Run.call
  generalize r s = o at hr ⊢
  generalize r' s' = o' at hr ⊢
  cases hr with
  | done hv hst ht => exact .done hv hst ht
  | left hv hst ht => exact .done hv hst ht
  | failed hst ht => exact .failed hst ht
  | starved => exact .starved _

/-- Making the values of an answer. -/
theorem follows_make {a : Eval.Answer} (ha : a.Every (Value.ClosesOver near)) :
    (change fun s => s.make a).Follows near (Value.Over near) (change fun s => s.make a) := by
  intro s s' hs
  obtain ⟨v, k, text, hmake⟩ := Store.make_eq a s.fresh
  have hv : v.Over near := by
    have hover := Store.make_every trivial (fun _ _ => trivial) (fun _ _ => trivial) ha s
    rw [hmake s rfl] at hover
    exact hover
  show Outcome.Follows near _ s (.done (s.make a).1 (s.make a).2) (.done (s'.make a).1 (s'.make a).2)
  rw [hmake s rfl, hmake s' hs.fresh, hs.output]
  exact .done hv (fun _ _ => rfl) (hs.of_frames k (s.output ++ text))

end Run

/-! ## The evaluator -/

namespace Eval

open Run

variable {near : Nat → Prop}

section Lists

theorem elements_follow {expr expr' : Expr → Run Value}
    (he : ∀ e, (expr e).Follows near (Value.Over near) (expr' e)) (es : List Expr) :
    (elements expr es).Follows near (AllEvery (Value.ClosesOver near)) (elements expr' es) := by
  induction es with
  | nil => exact follows_pure allEvery_nil
  | cons e es ih =>
    apply (he e).bind
    intro v hv
    apply ih.bind
    intro vs hvs
    exact follows_pure (hvs.cons hv)

theorem pairs_follow {expr expr' : Expr → Run Value}
    (he : ∀ e, (expr e).Follows near (Value.Over near) (expr' e)) {sofar : Pairs}
    (hs : sofar.Every (Value.ClosesOver near)) (es : List Entry) :
    (pairs expr sofar es).Follows near (Pairs.Every (Value.ClosesOver near))
      (pairs expr' sofar es) := by
  induction es generalizing sofar with
  | nil => exact follows_pure hs
  | cons e es ih =>
    obtain ⟨k, v⟩ := e
    apply (he k).bind
    intro key hkey
    apply (he v).bind
    intro value hvalue
    split
    · next more hmore => exact ih (Pairs.every_insert? hs hkey hvalue hmore)
    · exact follows_fail _

theorem sequence_follows {stmt stmt' : Stmt → Run Value}
    (hst : ∀ st, (stmt st).Follows near (Value.Over near) (stmt' st)) {last : Value}
    (hl : last.Over near) (ss : List Stmt) :
    (sequence stmt last ss).Follows near (Value.Over near) (sequence stmt' last ss) := by
  induction ss generalizing last with
  | nil => exact follows_pure hl
  | cons st ss ih =>
    unfold sequence
    split
    · exact ih hl
    · exact (hst st).bind fun v hv => ih hv

end Lists

/-- Expressions and blocks of the second kind follow those of the first in frames that are near. -/
structure PartsFollow (near : Nat → Prop) (expr expr' : ExprRun) (block block' : BlockRun) :
    Prop where
  expression : ∀ e {frame : Nat}, near frame →
    (expr e frame).Follows near (Value.Over near) (expr' e frame)
  block : ∀ body {frame : Nat}, near frame →
    (block body frame).Follows near (Value.Over near) (block' body frame)

section Parts

variable {expr expr' : ExprRun} {block block' : BlockRun} {frame : Nat}
  (h : PartsFollow near expr expr' block block') (hf : near frame)

include h hf

theorem statementWith_follows (st : Stmt) :
    (statementWith expr block frame st).Follows near (Value.Over near)
      (statementWith expr' block' frame st) := by
  cases st with
  | bind name value span =>
    apply (h.expression value hf).bind
    intro v hv s s' hs
    exact .done (Value.over_scalar rfl) (Store.spares_set hf s name.name v)
      (hs.set frame name.name hv)
  | ret value span => exact (h.expression value hf).bind fun v hv => follows_leave hv
  | expr value => exact h.expression value hf
  | block body => exact h.block body hf
  | blank span => exact follows_pure (Value.over_scalar rfl)

theorem statementsWith_follows (ss : List Stmt) :
    (statementsWith expr block frame ss).Follows near (Value.Over near)
      (statementsWith expr' block' frame ss) :=
  sequence_follows (statementWith_follows h hf) (Value.over_scalar rfl) ss

omit h in
theorem nameValue_follows (name : String) :
    (nameValue frame name).Follows near (Value.Over near) (nameValue frame name) := by
  have hlook : (look fun s => s.get? frame name).Follows near
      (fun o => ∀ v, o = some v → v.Over near) (look fun s => s.get? frame name) := by
    intro s s' hs
    obtain ⟨heq, hover⟩ := hs.get? hf name
    show Outcome.Follows near _ s (.done (s.get? frame name) s) (.done (s'.get? frame name) s')
    rw [heq]
    exact .done hover (.refl s) hs
  apply hlook.bind
  intro o ho
  split
  · next v => exact follows_pure (ho v rfl)
  · split
    · exact follows_pure (Value.every_builtin trivial)
    · exact follows_fail _

/-- The frame that binds the name is near where the frame of the assignment is. -/
theorem assignment_follows (target value : Expr) :
    (assignment expr frame target value).Follows near (Value.Over near)
      (assignment expr' frame target value) := by
  unfold assignment
  split
  · next name =>
    apply (h.expression value hf).bind
    intro v hv s s' hs
    obtain ⟨heq, hnear⟩ := hs.holder? hf name.name
    dsimp only
    rw [heq]
    split
    · next j hj =>
      exact .done hv (Store.spares_set (hnear j hj) s name.name v) (hs.set j name.name hv)
    · exact .failed (.refl s) hs
  · exact follows_fail _

theorem operation_follows (left : Expr) (op : BinaryOp) (right : Expr) :
    (operation expr frame left op right).Follows near (Value.Over near)
      (operation expr' frame left op right) := by
  have hbool : ∀ t : Bool, (pure (.bool t) : Run Value).Follows near (Value.Over near)
      (pure (.bool t)) := fun t => follows_pure (Value.over_scalar rfl)
  unfold operation
  split
  · exact assignment_follows h hf left right
  · apply (h.expression left hf).bind
    intro v _
    split
    · exact (h.expression right hf).bind fun w _ => hbool _
    · exact hbool _
  · apply (h.expression left hf).bind
    intro v _
    split
    · exact hbool _
    · exact (h.expression right hf).bind fun w _ => hbool _
  · apply (h.expression left hf).bind
    intro v _
    apply (h.expression right hf).bind
    intro w _
    exact follows_scalar (applyBinary_scalar _ v w)

omit h hf in
theorem indexValue_follows {target : Value} (ht : target.Over near) (position : Value) :
    (indexValue target position).Follows near (Value.Over near) (indexValue target position) := by
  unfold indexValue
  split
  · exact follows_pure (ht.elements.getD trivial fun v hv => element_mem hv)
  · split
    · next hfound => exact follows_pure (Pairs.every_find? ht.pairs trivial hfound)
    · exact follows_fail _
  · exact follows_fail _

omit h in
/-- What is run in a frame that is opened for it. -/
theorem opened_follows {r r' : Nat → Run Value}
    (hr : ∀ scope, near scope → (r scope).Follows near (Value.Over near) (r' scope)) :
    (change (fun s => s.openFrame (some frame)) >>= r).Follows near (Value.Over near)
      (change (fun s => s.openFrame (some frame)) >>= r') := by
  have hopen : (change fun s => s.openFrame (some frame)).Follows near near
      (change fun s => s.openFrame (some frame)) := by
    intro s s' hs
    have hnew : (s'.openFrame (some frame)).1 = (s.openFrame (some frame)).1 := hs.size
    unfold change
    dsimp only
    rw [hnew]
    exact .done (hs.later _ (Nat.le_refl _)) (hs.spares_openFrame _) (hs.openFrame hf)
  exact hopen.bind hr

/-- A function's body is run in a frame that is opened for the arguments. -/
theorem body_follows {bs : List (String × Value)} (hbs : ∀ b ∈ bs, b.2.Over near)
    (ss : List Stmt) :
    (do
      let scope ← change fun s => s.openFrame (some frame)
      change fun s => ((), s.setAll scope bs)
      call (statementsWith expr block scope ss) : Run Value).Follows near (Value.Over near)
    (do
      let scope ← change fun s => s.openFrame (some frame)
      change fun s => ((), s.setAll scope bs)
      call (statementsWith expr' block' scope ss)) := by
  refine opened_follows hf fun scope hscope => ?_
  have hargs : (change fun s => ((), s.setAll scope bs)).Follows near (fun _ => True)
      (change fun s => ((), s.setAll scope bs)) :=
    fun s s' hs => .done trivial (Store.spares_setAll hscope s bs) (hs.setAll scope hbs)
  exact hargs.bind fun _ _ => (statementsWith_follows h hscope ss).call

end Parts

/-! ### The recursive rules -/

/-- With a budget of `b'` every rule follows itself with a budget of `b`. -/
structure RulesFollow (near : Nat → Prop) (b b' : Nat) : Prop where
  parts : PartsFollow near (expression b) (expression b') (block b) (block b')
  apply : ∀ {f : Value} {args : List Value}, f.Over near →
    AllEvery (Value.ClosesOver near) args →
    (apply b f args).Follows near (Value.Over near) (apply b' f args)
  repeatWhile : ∀ (condition : Expr) (body : Block) {frame : Nat}, near frame →
    (repeatWhile b condition body frame).Follows near (Value.Over near)
      (repeatWhile b' condition body frame)

variable {b b' frame : Nat}

theorem expression_succ_follows (h : RulesFollow near b b') (e : Expr) (hf : near frame) :
    (expression (b + 1) e frame).Follows near (Value.Over near)
      (expression (b' + 1) e frame) := by
  have he := fun e => h.parts.expression e hf
  unfold expression
  cases e with
  | ident name => exact nameValue_follows hf name.name
  | int value spelling span => exact follows_pure (Value.over_scalar rfl)
  | float value spelling span => exact follows_pure (Value.over_scalar rfl)
  | bool value span => exact follows_pure (Value.over_scalar rfl)
  | str value span => exact follows_pure (Value.over_scalar rfl)
  | array es span =>
    apply (elements_follow he es).bind
    intro vs hvs
    exact follows_make (a := .array vs) hvs
  | hash es span =>
    apply (pairs_follow he Pairs.every_empty es).bind
    intro ps hps
    exact follows_make (a := .hash ps) hps
  | unary op operand span => exact (he operand).bind fun v _ => follows_scalar (applyUnary_scalar op v)
  | binary left op right span => exact operation_follows h.parts hf left op right
  | cond condition consequence alternative span =>
    apply (he condition).bind
    intro v _
    split
    · exact h.parts.block consequence hf
    · cases alternative with
      | some body => exact h.parts.block body hf
      | none => exact follows_pure (Value.over_scalar rfl)
  | loop condition body span => exact h.repeatWhile condition body hf
  | func parameters body span =>
    -- the function closes over the frame in which it is made, which is near
    intro s s' hs
    dsimp only
    rw [hs.fresh]
    exact .done (Value.every_func hf) (fun _ _ => rfl)
      (hs.output ▸ hs.of_frames (s.fresh + 1) s.output)
  | call callee arguments span =>
    apply (he callee).bind
    intro f hfv
    apply (elements_follow he arguments).bind
    intro args hargs
    exact h.apply hfv hargs
  | index target position span =>
    apply (he target).bind
    intro v hv
    apply (he position).bind
    intro w _
    exact indexValue_follows hv w

theorem apply_succ_follows (h : RulesFollow near b b') {f : Value} {args : List Value}
    (hf : f.Over near) (hargs : AllEvery (Value.ClosesOver near) args) :
    (apply (b + 1) f args).Follows near (Value.Over near) (apply (b' + 1) f args) := by
  unfold apply
  split
  · next id parameters body frame =>
    split
    · have hframe : near frame := hf.self
      exact body_follows h.parts hframe (fun p hp => hargs p.2 (List.of_mem_zip hp).2)
        body.statements
    · exact follows_fail _
  · next builtin =>
    have hanswer := builtin.answer_every Value.closesOver_of_isScalar hargs
    exact (follows_ofExcept hanswer).bind fun a ha => follows_make ha
  · exact follows_fail _

theorem repeatWhile_succ_follows (h : RulesFollow near b b') (condition : Expr) (body : Block)
    (hf : near frame) :
    (repeatWhile (b + 1) condition body frame).Follows near (Value.Over near)
      (repeatWhile (b' + 1) condition body frame) := by
  unfold repeatWhile
  apply (h.parts.expression condition hf).bind
  intro v _
  split
  · exact (h.parts.block body hf).bind fun _ _ => h.repeatWhile condition body hf
  · exact follows_pure (Value.over_scalar rfl)

/-- A rule with a larger budget follows the rule with the smaller one. -/
theorem rules_follow (near : Nat → Prop) (hb : b ≤ b') : RulesFollow near b b' := by
  induction b generalizing b' with
  | zero =>
    exact ⟨⟨fun _ _ _ => follows_starve _, fun _ _ _ => follows_starve _⟩,
      fun _ _ => follows_starve _, fun _ _ _ _ => follows_starve _⟩
  | succ b ih =>
    obtain ⟨c, rfl⟩ : ∃ c, b' = c + 1 := ⟨b' - 1, by omega⟩
    have hrules := ih (Nat.le_of_succ_le_succ hb)
    refine ⟨⟨fun e _ hf => expression_succ_follows hrules e hf, fun body _ hf => ?_⟩,
      apply_succ_follows hrules,
      fun condition body _ hf => repeatWhile_succ_follows hrules condition body hf⟩
    unfold block
    exact opened_follows hf fun scope hscope =>
      statementsWith_follows hrules.parts hscope body.statements

end Eval

/-! ## Larger budgets -/

namespace Store

theorem twins_self (s : Store) : s.Twins (fun _ => True) s :=
  ⟨⟨rfl, fun _ _ => rfl, rfl, rfl⟩, fun _ _ _ _ => trivial,
    fun _ _ _ _ _ _ => Value.over_iff.mpr fun _ _ => trivial, fun _ _ => trivial⟩

/-- Stores that agree on all frames are the same. -/
theorem Twins.eq {s s' : Store} (h : s.Twins (fun _ => True) s') : s' = s := by
  obtain ⟨frames, fresh, output⟩ := s
  obtain ⟨frames', fresh', output'⟩ := s'
  have hframes : frames' = frames := Array.ext_getElem? fun i => h.frames i trivial
  rw [hframes, show fresh' = fresh from h.fresh, show output' = output from h.output]

end Store

/-- A run that is not starved ends as one that follows it from the same store. -/
theorem Run.Follows.eq_of_ne_starved {α : Type} {P : α → Prop} {r r' : Run α}
    (h : r.Follows (fun _ => True) P r') {s : Store} (hs : r s ≠ .starved) : r' s = r s := by
  have hrun := h s s s.twins_self
  generalize r s = o at hrun hs ⊢
  generalize r' s = o' at hrun ⊢
  cases hrun with
  | done _ _ ht => rw [ht.eq]
  | left _ _ ht => rw [ht.eq]
  | failed _ ht => rw [ht.eq]
  | starved => exact absurd rfl hs

section Budgets

variable {b b' : Nat} {frame : Nat} {s : Store}

theorem Eval.statements_follow (hb : b ≤ b') (ss : List Stmt) (frame : Nat) :
    (statements b ss frame).Follows (fun _ => True) (Value.Over fun _ => True)
      (statements b' ss frame) :=
  statementsWith_follows (rules_follow (fun _ => True) hb).parts trivial ss

/-- Statements that have ended end in the same way with a larger budget. -/
theorem Eval.statements_of_le (hb : b ≤ b') {ss : List Stmt}
    (h : statements b ss frame s ≠ .starved) : statements b' ss frame s = statements b ss frame s :=
  (statements_follow hb ss frame).eq_of_ne_starved h

/-- A program that has ended ends in the same way with a larger budget. -/
theorem Eval.program_of_le (hb : b ≤ b') {p : Program} (h : program b p frame s ≠ .starved) :
    program b' p frame s = program b p frame s :=
  (statements_follow hb p.statements frame).call.eq_of_ne_starved h

end Budgets

/-! ## Reached frames -/

namespace Store

/-- The frames that are reached from some frames: outwards, and into functions that are held by
    bindings, also inside arrays and hashes. -/
inductive Reaches (s : Store) (roots : Nat → Prop) : Nat → Prop
  | root {i : Nat} (h : roots i) : Reaches s roots i
  | outer {i j : Nat} (h : Reaches s roots i) (ho : s.outer? i = some j) : Reaches s roots j
  | held {i j : Nat} {f : Frame} {b : String × Value} (h : Reaches s roots i)
      (hf : s.frames[i]? = some f) (hb : b ∈ f.bindings) (hv : b.2.Closes j) : Reaches s roots j

variable {near roots : Nat → Prop} {s s' t t' : Store}

theorem SameOn.refl (s : Store) : s.SameOn near s := ⟨rfl, fun _ _ => rfl, rfl, rfl⟩

/-- What is reached, together with all frames still to come, is closed. -/
theorem SameOn.twins (h : s.SameOn (s.Reaches roots) s') :
    s.Twins (fun i => s.Reaches roots i ∨ s.frames.size ≤ i) s' := by
  refine ⟨⟨h.size, fun i hi => ?_, h.fresh, h.output⟩, fun i j hi hj => ?_,
    fun i f hi hf b hb => ?_, fun i hi => Or.inr hi⟩
  · rcases hi with hi | hi
    · exact h.frames i hi
    · rw [Array.getElem?_eq_none hi, Array.getElem?_eq_none (h.size.symm ▸ hi)]
  · rcases hi with hi | hi
    · exact Or.inl (hi.outer hj)
    · simp [outer?, Array.getElem?_eq_none hi] at hj
  · rcases hi with hi | hi
    · exact Value.over_iff.mpr fun j hj => Or.inl (hi.held hf hb hj)
    · rw [Array.getElem?_eq_none hi] at hf
      cases hf

theorem Twins.symm (h : s.Twins near s') : s'.Twins near s where
  size := h.size.symm
  frames i hi := (h.frames i hi).symm
  fresh := h.fresh.symm
  output := h.output.symm
  outer i j hi hj := h.outer i j hi (h.outer?_eq hi ▸ hj)
  bound i f hi hf := h.bound i f hi (h.frames i hi ▸ hf)
  later i hi := h.later i (h.size ▸ hi)

/-- From frames that are near only such frames are reached. -/
theorem Twins.reaches (h : s.Twins near s') (hroots : ∀ i, roots i → near i) {i : Nat}
    (hi : s.Reaches roots i) : near i := by
  induction hi with
  | root hr => exact hroots _ hr
  | outer _ ho ih => exact h.outer _ _ ih ho
  | held _ hf hb hv ih => exact Value.over_iff.mp (h.bound _ _ ih hf _ hb) _ hv

end Store

/-- Two runs end in the same way: both are starved, or both end with the same value or for the same
    cause, in stores that agree on the frames `near`. -/
inductive Outcome.EndsAs {α : Type} (near : Nat → Prop) : Outcome α → Outcome α → Prop
  | done (a : α) {t t' : Store} (h : t.SameOn near t') : EndsAs near (.done a t) (.done a t')
  | left (v : Value) {t t' : Store} (h : t.SameOn near t') : EndsAs near (.left v t) (.left v t')
  | failed (e : RuntimeError) {t t' : Store} (h : t.SameOn near t') :
      EndsAs near (.failed e t) (.failed e t')
  | starved : EndsAs near .starved .starved

/-- From `s` the run has to do with frames reached from `roots` and with new ones only. -/
structure Run.Local (roots : Nat → Prop) (s : Store) (r : Run Value) : Prop where
  /-- Other frames stay as they are. -/
  spares : ∀ t, (r s).store? = some t → ∀ i < s.frames.size, ¬ s.Reaches roots i →
    t.frames[i]? = s.frames[i]?
  /-- It makes no difference what other frames hold. -/
  blind : ∀ s', s.SameOn (s.Reaches roots) s' →
    (r s).EndsAs (fun i => s.Reaches roots i ∨ s.frames.size ≤ i) (r s')
  /-- No other frame is reached afterwards. -/
  reaches : ∀ t, (r s).store? = some t → ∀ i, t.Reaches roots i →
    s.Reaches roots i ∨ s.frames.size ≤ i

/-- A run that follows itself on all closed sets of frames with its roots is local. -/
theorem Run.local_of_follows {roots : Nat → Prop} {r : Run Value}
    (h : ∀ near : Nat → Prop, (∀ i, roots i → near i) → r.Follows near (Value.Over near) r)
    (s : Store) : r.Local roots s := by
  have hroots : ∀ i, roots i → s.Reaches roots i ∨ s.frames.size ≤ i := fun i hi => Or.inl (.root hi)
  have hrun := h _ hroots
  have hself := hrun s s (Store.SameOn.refl s).twins
  have hend : ∀ t, (r s).store? = some t →
      s.Spares (fun i => s.Reaches roots i ∨ s.frames.size ≤ i) t ∧
        ∃ t', t.Twins (fun i => s.Reaches roots i ∨ s.frames.size ≤ i) t' := by
    intro t ht
    generalize r s = o at hself ht
    cases hself with
    | done _ hst htwins | left _ hst htwins | failed hst htwins => cases ht; exact ⟨hst, _, htwins⟩
    | starved => cases ht
  refine ⟨fun t ht i hi hnot => ?_, fun s' hs => ?_, fun t ht i hi => ?_⟩
  · refine (hend t ht).1 i fun hnear => ?_
    rcases hnear with hreach | hnew
    · exact hnot hreach
    · omega
  · -- neither run can be starved alone, since each follows the other one
    have hforth := hrun s s' hs.twins
    have hback := hrun s' s hs.twins.symm
    generalize r s = o at hforth hback ⊢
    generalize r s' = o' at hforth hback ⊢
    cases hforth with
    | done _ _ ht => exact .done _ ht.toSameOn
    | left _ _ ht => exact .left _ ht.toSameOn
    | failed _ ht => exact .failed _ ht.toSameOn
    | starved =>
      cases hback
      exact .starved
  · obtain ⟨-, t', ht'⟩ := hend t ht
    exact ht'.reaches hroots hi

/-- An expression has to do with frames reached from the frame it is run in, and a call with those
    reached from the function and the arguments, besides new frames. -/
theorem Eval.runs_local (s : Store) (budget : Nat) :
    (∀ e frame, (expression budget e frame).Local (fun i => i = frame) s) ∧
      ∀ f args, (apply budget f args).Local (fun i => f.Closes i ∨ ∃ v ∈ args, v.Closes i) s := by
  refine ⟨fun e frame => ?_, fun f args => ?_⟩
  · refine Run.local_of_follows (fun near hroots => ?_) s
    exact (rules_follow near (Nat.le_refl _)).parts.expression e (hroots frame rfl)
  · refine Run.local_of_follows (fun near hroots => ?_) s
    refine (rules_follow near (Nat.le_refl _)).apply ?_ fun v hv => ?_
    · exact Value.over_iff.mpr fun i hi => hroots i (Or.inl hi)
    · exact Value.over_iff.mpr fun i hi => hroots i (Or.inr ⟨v, hv, hi⟩)

/-- In `f()` the function changes the frame that it closes over. What an unreached frame holds, a
    function closing over the same frame, stays and does not matter. -/
theorem Eval.runs_local_counter :
    let x : Expr := .ident ⟨"x", ⟨0, 1⟩⟩
    let f : Value := .func 0 [] ⟨[.expr (.binary x .assign (.int 2 "2" ⟨0, 1⟩) ⟨0, 1⟩)], ⟨0, 1⟩⟩ 1
    let s : Store := ⟨#[⟨[("f", f)], none⟩, ⟨[("x", .int 1)], none⟩, ⟨[("g", f)], some 0⟩], 1, ""⟩
    let s' : Store := ⟨#[⟨[("f", f)], none⟩, ⟨[("x", .int 1)], none⟩, ⟨[], some 0⟩], 1, ""⟩
    let e : Expr := .call (.ident ⟨"f", ⟨0, 1⟩⟩) [] ⟨0, 1⟩
    ¬ s.Reaches (fun i => i = 0) 2 ∧ s.SameOn (s.Reaches fun i => i = 0) s' ∧
      ∃ t t', expression 9 e 0 s = .done (.int 2) t ∧ expression 9 e 0 s' = .done (.int 2) t' ∧
        t.frames[2]? = s.frames[2]? ∧
        t.SameOn (fun i => s.Reaches (fun i => i = 0) i ∨ 3 ≤ i) t' := by
  intro x f s s' e
  -- all frames but the last are closed, and the two stores agree on them
  have htwins : s.Twins (fun i => i ≠ 2) s' := by
    have hf : f.Over fun i => i ≠ 2 := Value.every_func (show 1 ≠ 2 by decide)
    refine ⟨⟨rfl, fun i hi => ?_, rfl, rfl⟩, fun i j hi hj => ?_, fun i g hi hg => ?_, fun i hi => ?_⟩
    · rcases i with _ | _ | _ | i <;> first | rfl | exact absurd rfl hi
    · rcases i with _ | _ | _ | i <;> first | exact absurd rfl hi | cases hj
    · rcases i with _ | _ | _ | i
      · cases hg
        exact List.forall_mem_singleton.mpr hf
      · cases hg
        exact List.forall_mem_singleton.mpr (Value.over_scalar rfl)
      · exact absurd rfl hi
      · cases hg
    · intro htwo
      rw [htwo] at hi
      exact absurd hi (by decide)
  have hnear : ∀ i, s.Reaches (fun i => i = 0) i → i ≠ 2 := fun i hi =>
    htwins.reaches (fun j hj => by rw [hj]; decide) hi
  have hsame : s.SameOn (s.Reaches fun i => i = 0) s' :=
    ⟨rfl, fun i hi => htwins.frames i (hnear i hi), rfl, rfl⟩
  obtain ⟨t, ht⟩ : ∃ t, expression 9 e 0 s = .done (.int 2) t := ⟨_, rfl⟩
  obtain ⟨t', ht'⟩ : ∃ t', expression 9 e 0 s' = .done (.int 2) t' := ⟨_, rfl⟩
  have hlocal := (runs_local s 9).1 e 0
  have hends := hlocal.blind s' hsame
  rw [ht, ht'] at hends
  refine ⟨fun h => hnear 2 h rfl, hsame, t, t', ht, ht', ?_, ?_⟩
  · exact hlocal.spares t (by rw [ht]; rfl) 2 (by decide) fun h => hnear 2 h rfl
  · cases hends with
    | done _ h => exact h

end Scriptlet
