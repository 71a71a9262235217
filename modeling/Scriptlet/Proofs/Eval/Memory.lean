import Scriptlet.Proofs.Eval.Proper

/-!
# `Proofs.Eval.Memory` — the value that an identity belongs to

An array, a hash or a function gets the next number as its identity when it is made. The memory of a
store lists what was made so far, each value at the place that is its identity. It only grows at its
end, so that an identity belongs to one value for ever, and no value that a program can get at has an
identity that was not given out.

## Contents
- `Value.id?`: the identity of a value. `Memory.Holds`, `Value.Made m`: the value, and everything
  inside it, is what the memory `m` has for its identity.
- `Store.Recalls m`: `m` is the memory of the store.
- `Run.Remembers`: from a store with a memory the run ends in one whose memory goes on from there.
  `Run.Remembers.bind` composes it; there is one lemma for each rule of the evaluator.
- `Asks.remembers`, `Asks.sound`: so do the stores from which a run starts its pieces.
-/

namespace Scriptlet

/-! ## Identities -/

/-- The identity of an array, a hash or a function. -/
def Value.id? : Value → Option Nat
  | .array id _ | .hash id _ | .func id _ _ _ => some id
  | _ => none

/-- The arrays, hashes and functions made so far. -/
abbrev Memory := List Value

/-- The value has no identity, or it is the one that was made with it. -/
def Memory.Holds (m : Memory) (v : Value) : Prop := ∀ i, v.id? = some i → m[i]? = some v

/-- The memory holds the value and everything inside it. -/
abbrev Value.Made (m : Memory) (v : Value) : Prop := v.Every m.Holds

/-- The memory holds the values and everything inside them. -/
abbrev AllMade (m : Memory) (vs : List Value) : Prop := AllEvery m.Holds vs

section Memory

variable {m m' : Memory} {v w : Value}

theorem Memory.Holds.mono (h : m.Holds v) (hm : m <+: m') : Memory.Holds m' v := by
  intro i hi
  obtain ⟨more, rfl⟩ := hm
  have hlt := (List.getElem?_eq_some_iff.mp (h i hi)).1
  rw [List.getElem?_append_left hlt]
  exact h i hi

theorem Value.Made.mono (h : v.Made m) (hm : m <+: m') : v.Made m' :=
  fun w hw => (h w hw).mono hm

theorem AllMade.mono {vs : List Value} (h : AllMade m vs) (hm : m <+: m') : AllMade m' vs :=
  fun v hv => Value.Made.mono (h v hv) hm

theorem Memory.holds_of_none (h : v.id? = none) : m.Holds v := by
  intro i hi
  rw [h] at hi
  cases hi

theorem Value.made_of_isScalar (h : v.isScalar = true) : v.Made m :=
  every_scalar h (Memory.holds_of_none (by cases v <;> first | rfl | cases h))

end Memory

/-! ## Stores -/

namespace Store

/-- As many identities were given out as the memory has places, and it holds every value that is bound
    in some frame. -/
structure Recalls (s : Store) (m : Memory) : Prop where
  length_eq : m.length = s.fresh
  bound : s.Every m.Holds

section Recalls

variable {s t : Store} {m : Memory} {v : Value}

theorem Recalls.get? (h : s.Recalls m) {i : Nat} {name : String} (hv : s.get? i name = some v) :
    v.Made m :=
  h.bound.get? hv

theorem Recalls.set (h : s.Recalls m) (i : Nat) (name : String) (hv : v.Made m) :
    (s.set i name v).Recalls m :=
  ⟨h.length_eq, h.bound.set i name hv⟩

theorem Recalls.setAll (h : s.Recalls m) (i : Nat) {bs : List (String × Value)}
    (hbs : ∀ b ∈ bs, b.2.Made m) : (s.setAll i bs).Recalls m := by
  induction bs generalizing s with
  | nil => exact h
  | cons b bs ih =>
    obtain ⟨hb, hrest⟩ := List.forall_mem_cons.mp hbs
    exact ih (h.set i b.1 hb) hrest

theorem Recalls.openFrame (h : s.Recalls m) (outer : Option Nat) :
    (s.openFrame outer).2.Recalls m :=
  ⟨h.length_eq, h.bound.openFrame outer⟩

/-- The next value that is made gets the next place. -/
theorem Recalls.add (h : s.Recalls m) (v : Value) :
    ({ s with fresh := s.fresh + 1 } : Store).Recalls (m ++ [v]) := by
  refine ⟨?_, fun i f hf b hb => ?_⟩
  · rw [List.length_append, h.length_eq, List.length_singleton]
  · exact Value.Made.mono (h.bound i f hf b hb) (List.prefix_append m [v])

theorem Recalls.holds_added (h : s.Recalls m) (hv : v.id? = some s.fresh) :
    Memory.Holds (m ++ [v]) v := by
  intro i hi
  rw [hv, ← h.length_eq] at hi
  cases hi
  exact List.getElem?_concat_length

theorem Recalls.makeArray (h : s.Recalls m) {vs : List Value} (hvs : AllMade m vs) :
    ∃ m', m <+: m' ∧ (s.makeArray vs).2.Recalls m' ∧ (s.makeArray vs).1.Made m' := by
  refine ⟨_, List.prefix_append m [_], h.add (.array s.fresh vs), ?_⟩
  exact Value.every_array (h.holds_added rfl) (hvs.mono (List.prefix_append m _))

theorem Recalls.makeHash (h : s.Recalls m) {ps : Pairs} (hps : ps.Every m.Holds) :
    ∃ m', m <+: m' ∧ (s.makeHash ps).2.Recalls m' ∧ (s.makeHash ps).1.Made m' := by
  have hgrow : m <+: m ++ [.hash s.fresh ps] := List.prefix_append m _
  refine ⟨_, hgrow, h.add (.hash s.fresh ps), ?_⟩
  exact Pairs.Every.hash (fun p hp => ⟨Value.Made.mono (hps p hp).1 hgrow,
    Value.Made.mono (hps p hp).2 hgrow⟩) (h.holds_added rfl)

theorem Recalls.makeRows (h : s.Recalls m) {rows : List (List Value)}
    (hrows : ∀ row ∈ rows, AllMade m row) :
    ∃ m', m <+: m' ∧ (s.makeRows rows).2.Recalls m' ∧ AllMade m' (s.makeRows rows).1 := by
  induction rows generalizing s m with
  | nil => exact ⟨m, List.prefix_rfl, h, allEvery_nil⟩
  | cons row rows ih =>
    obtain ⟨hrow, hrest⟩ := List.forall_mem_cons.mp hrows
    obtain ⟨m₁, hm₁, hs₁, hfirst⟩ := h.makeArray hrow
    obtain ⟨m₂, hm₂, hs₂, hothers⟩ := ih hs₁ fun r hr => AllMade.mono (hrest r hr) hm₁
    exact ⟨m₂, hm₁.trans hm₂, hs₂, hothers.cons (Value.Made.mono hfirst hm₂)⟩

/-- Carrying out an answer makes nothing of values that were not made before. -/
theorem Recalls.make (h : s.Recalls m) {a : Eval.Answer} (ha : a.Every m.Holds) :
    ∃ m', m <+: m' ∧ (s.make a).2.Recalls m' ∧ (s.make a).1.Made m' := by
  cases a with
  | value v => exact ⟨m, List.prefix_rfl, h, ha⟩
  | array vs => exact h.makeArray ha
  | table rows =>
    obtain ⟨m₁, hm₁, hs₁, hvs⟩ := h.makeRows ha
    obtain ⟨m₂, hm₂, hs₂, hv⟩ := hs₁.makeArray hvs
    exact ⟨m₂, hm₁.trans hm₂, hs₂, hv⟩
  | hash ps => exact h.makeHash ha
  | line text => exact ⟨m, List.prefix_rfl, ⟨h.length_eq, h.bound⟩, Value.made_of_isScalar rfl⟩

end Recalls

end Store

/-! ## Runs -/

/-- The run ended in a store whose memory goes on from `m`; what it is done with has the property, and
    a value that it is left with was made. -/
def Outcome.Remembers {α : Type} (P : Memory → α → Prop) (m : Memory) : Outcome α → Prop
  | .done a t => ∃ m', m <+: m' ∧ t.Recalls m' ∧ P m' a
  | .left v t => ∃ m', m <+: m' ∧ t.Recalls m' ∧ v.Made m'
  | .failed _ t => ∃ m', m <+: m' ∧ t.Recalls m'
  | .starved => True

/-- From every store with a memory that goes on from `m` the run ends in one whose memory goes on from
    there. -/
def Run.Remembers {α : Type} (m : Memory) (P : Memory → α → Prop) (r : Run α) : Prop :=
  ∀ (s : Store) (m' : Memory), m <+: m' → s.Recalls m' → (r s).Remembers P m'

theorem Outcome.Remembers.after {α : Type} {P : Memory → α → Prop} {m m' : Memory} {o : Outcome α}
    (h : o.Remembers P m') (hm : m <+: m') : o.Remembers P m := by
  cases o with
  | done a t =>
    obtain ⟨m'', hm', hrest⟩ := h
    exact ⟨m'', hm.trans hm', hrest⟩
  | left v t =>
    obtain ⟨m'', hm', hrest⟩ := h
    exact ⟨m'', hm.trans hm', hrest⟩
  | failed e t =>
    obtain ⟨m'', hm', hrest⟩ := h
    exact ⟨m'', hm.trans hm', hrest⟩
  | starved => trivial

namespace Run

variable {α β : Type} {m : Memory} {P : Memory → α → Prop} {Q : Memory → β → Prop}

theorem Remembers.bind {r : Run α} {f : α → Run β} (h : r.Remembers m P)
    (hf : ∀ a m', m <+: m' → P m' a → (f a).Remembers m' Q) : (r >>= f).Remembers m Q := by
  intro s k hk hs
  have hr := h s k hk hs
  rw [bind_apply]
  cases hrs : r s with
  | done a t =>
    rw [hrs] at hr
    obtain ⟨k', hk', ht, ha⟩ := hr
    exact (hf a k' (hk.trans hk') ha t k' List.prefix_rfl ht).after hk'
  | left v t => rw [hrs] at hr; exact hr
  | failed e t => rw [hrs] at hr; exact hr
  | starved => trivial

theorem remembers_pure {a : α} (ha : ∀ m', m <+: m' → P m' a) : (pure a : Run α).Remembers m P :=
  fun _ k hk hs => ⟨k, List.prefix_rfl, hs, ha k hk⟩

theorem remembers_value {v : Value} (hv : v.Made m) :
    (pure v : Run Value).Remembers m fun m v => v.Made m :=
  remembers_pure fun _ hk => hv.mono hk

theorem remembers_scalar {v : Value} (hv : v.isScalar = true) :
    (pure v : Run Value).Remembers m fun m v => v.Made m :=
  remembers_value (Value.made_of_isScalar hv)

theorem remembers_leave {v : Value} (hv : v.Made m) : (leave v : Run α).Remembers m P :=
  fun _ k hk hs => ⟨k, List.prefix_rfl, hs, hv.mono hk⟩

theorem Remembers.call {r : Run Value} (h : r.Remembers m fun m v => v.Made m) :
    r.call.Remembers m fun m v => v.Made m := by
  intro s k hk hs
  have hr := h s k hk hs
  unfold Run.call
  cases hrs : r s with
  | done v t => rw [hrs] at hr; exact hr
  | left v t => rw [hrs] at hr; exact hr
  | failed e t => rw [hrs] at hr; exact hr
  | starved => trivial

end Run

/-! ## The evaluator -/

namespace Eval

open Run

/-- The run gives a value that was made. -/
abbrev RemembersValue (m : Memory) (r : Run Value) : Prop := r.Remembers m fun m v => v.Made m

section Lists

variable {m : Memory}

theorem sequence_remembers {stmt : Stmt → Run Value} (hst : ∀ st m, RemembersValue m (stmt st))
    {last : Value} (hl : last.Made m) (ss : List Stmt) :
    RemembersValue m (sequence stmt last ss) := by
  induction ss generalizing m last with
  | nil => exact remembers_value hl
  | cons st ss ih =>
    unfold sequence
    split
    · exact ih hl
    · exact (hst st m).bind fun v _ _ hv => ih hv

end Lists

section Parts

variable {expr : ExprRun} {block : BlockRun}
  (he : ∀ e frame m, RemembersValue m (expr e frame))
  (hb : ∀ body frame m, RemembersValue m (block body frame)) {frame : Nat} {m : Memory}

include he

include hb

theorem statementWith_remembers (st : Stmt) :
    RemembersValue m (statementWith expr block frame st) := by
  cases st with
  | bind name value span =>
    refine (he value frame m).bind fun v m₁ _ hv => ?_
    intro s k hk hs
    exact ⟨k, List.prefix_rfl, hs.set frame name.name (hv.mono hk), Value.made_of_isScalar rfl⟩
  | ret value span => exact (he value frame m).bind fun v _ _ hv => remembers_leave hv
  | expr value => exact he value frame m
  | block body => exact hb body frame m
  | blank span => exact remembers_scalar rfl

theorem statementsWith_remember (ss : List Stmt) :
    RemembersValue m (statementsWith expr block frame ss) :=
  sequence_remembers (fun st _ => statementWith_remembers he hb st) (Value.made_of_isScalar rfl) ss

end Parts

section Values

variable {m : Memory}

end Values

/-! ### The recursive rules -/

/-- With a budget of `b` every rule remembers. -/
structure RulesRemember (b : Nat) : Prop where
  expression (e : Expr) (frame : Nat) (m : Memory) : RemembersValue m (expression b e frame)
  block (body : Block) (frame : Nat) (m : Memory) : RemembersValue m (block b body frame)
  apply {f : Value} {args : List Value} {m : Memory} (hargs : AllMade m args) :
    RemembersValue m (apply b f args)
  repeatWhile (condition : Expr) (body : Block) (frame : Nat) (m : Memory) :
    RemembersValue m (repeatWhile b condition body frame)

variable {b : Nat} {m : Memory}

theorem RulesRemember.statements (h : RulesRemember b) (ss : List Stmt) (frame : Nat) :
    RemembersValue m (statements b ss frame) :=
  statementsWith_remember h.expression h.block ss

/-- The frame of the piece exists, and the functions passed to it close over frames that do. -/
def Job.Within (n : Nat) : Job → Prop
  | .expression _ frame | .statements _ frame | .block _ frame | .repeatWhile _ _ frame => frame < n
  | .apply f args => f.Within n ∧ AllWithin n args

section Pieces

variable {α : Type} {c frame : Nat} {job next : Job} {s t : Store}

/-- The end of a part of a safe run, for what comes after it. -/
theorem sound_of_done {scope : Option Nat} {P : Nat → α → Prop} {n : Nat} {r : Run α} {a : α}
    (h : r.Safe n scope P) (hs : s.Sound) (hn : n ≤ s.frames.size) (hr : r s = .done a t) :
    t.Sound ∧ s.frames.size ≤ t.frames.size ∧ P t.frames.size a := by
  have hend := h s hs hn
  rw [hr] at hend
  exact ⟨hend.2.1, hend.1.size_le, hend.2.2⟩

theorem jobOf?_within {n : Nat} {st : Stmt} (h : jobOf? frame st = some job) (hf : frame < n) :
    job.Within n := by
  cases st <;> cases h <;> exact hf

theorem opened_sound (hs : s.Sound) (hf : frame < s.frames.size) :
    (s.openFrame (some frame)).2.Sound ∧
      s.frames.size < (s.openFrame (some frame)).2.frames.size := by
  refine ⟨hs.openFrame fun j hj => Option.some.inj hj ▸ hf, ?_⟩
  rw [Store.size_openFrame]
  exact Nat.lt_succ_self _

/-- Pieces are started from sound stores, in frames that exist. -/
theorem Asks.sound (h : Asks b job s c next t) (hs : s.Sound) (hjob : job.Within s.frames.size) :
    t.Sound ∧ s.frames.size ≤ t.frames.size ∧ next.Within t.frames.size := by
  have hparts := (rules_safe c).parts
  have hexpr {e : Expr} {frame : Nat} {s t : Store} {v : Value} (hs : s.Sound)
      (hf : frame < s.frames.size) (hr : expression c e frame s = .done v t) :=
    sound_of_done (hparts.expression e hf) hs (Nat.le_refl _) hr
  have helements {es : List Expr} {frame : Nat} {s t : Store} {vs : List Value} (hs : s.Sound)
      (hf : frame < s.frames.size) (hr : elements (expression c · frame) es s = .done vs t) :=
    sound_of_done (elements_part_safe hparts hf es) hs (Nat.le_refl _) hr
  have hpairs {es : List Entry} {frame : Nat} {s t : Store} {ps : Pairs} (hs : s.Sound)
      (hf : frame < s.frames.size)
      (hr : pairs (expression c · frame) .empty es s = .done ps t) :=
    sound_of_done (pairs_safe (fun e _ hm => hparts.expression e (Nat.lt_of_lt_of_le hf hm))
      Pairs.empty_within es) hs (Nat.le_refl _) hr
  have hsame : next.Within s.frames.size → t = s →
      t.Sound ∧ s.frames.size ≤ t.frames.size ∧ next.Within t.frames.size := by
    rintro hnext rfl
    exact ⟨hs, Nat.le_refl _, hnext⟩
  cases h with
  | statement hbefore hnext =>
    obtain ⟨ht, hsize, -⟩ :=
      sound_of_done (statementsWith_safe hparts hjob _) hs (Nat.le_refl _) hbefore
    exact ⟨ht, hsize, jobOf?_within hnext (Nat.lt_of_lt_of_le hjob hsize)⟩
  | element hbefore =>
    obtain ⟨ht, hsize, -⟩ := helements hs hjob hbefore
    exact ⟨ht, hsize, Nat.lt_of_lt_of_le hjob hsize⟩
  | key hbefore =>
    obtain ⟨ht, hsize, -⟩ := hpairs hs hjob hbefore
    exact ⟨ht, hsize, Nat.lt_of_lt_of_le hjob hsize⟩
  | value hbefore hkey =>
    obtain ⟨ht, hsize, -⟩ := hpairs hs hjob hbefore
    have hf := Nat.lt_of_lt_of_le hjob hsize
    obtain ⟨hu, hsize', -⟩ := hexpr ht hf hkey
    exact ⟨hu, Nat.le_trans hsize hsize', Nat.lt_of_lt_of_le hf hsize'⟩
  | operand | assigned | left | condition | loop | callee | target | again => exact hsame hjob rfl
  | right _ he | position he | consequence he | alternative he | round he =>
    obtain ⟨ht, hsize, -⟩ := hexpr hs hjob he
    exact ⟨ht, hsize, Nat.lt_of_lt_of_le hjob hsize⟩
  | argument hf hbefore =>
    obtain ⟨ht, hsize, -⟩ := hexpr hs hjob hf
    have hframe := Nat.lt_of_lt_of_le hjob hsize
    obtain ⟨hu, hsize', -⟩ := helements ht hframe hbefore
    exact ⟨hu, Nat.le_trans hsize hsize', Nat.lt_of_lt_of_le hframe hsize'⟩
  | call hf hargs =>
    obtain ⟨ht, hsize, hg⟩ := hexpr hs hjob hf
    obtain ⟨hu, hsize', hvs⟩ := helements ht (Nat.lt_of_lt_of_le hjob hsize) hargs
    exact ⟨hu, Nat.le_trans hsize hsize', Value.Within.mono hg hsize', hvs⟩
  | scope =>
    obtain ⟨ht, hsize⟩ := opened_sound hs hjob
    exact ⟨ht, Nat.le_of_lt hsize, hsize⟩
  | @body _ frame id _ parameters body args hlength =>
    obtain ⟨hfunc, hargs⟩ := hjob
    have hframe : frame < s.frames.size := by
      cases hfunc with
      | func h => exact h
    obtain ⟨ht, hsize⟩ := opened_sound hs hframe
    have hbound : ∀ b ∈ (parameters.map Ident.name).zip args,
        b.2.Within (s.openFrame (some frame)).2.frames.size := fun b hb =>
      (hargs b.2 (List.of_mem_zip hb).2).mono (Nat.le_of_lt hsize)
    have hset := (Store.keeps_setAll (s.openFrame (some frame)).2 s.frames.size
      ((parameters.map Ident.name).zip args)).size_le
    exact ⟨ht.setAll _ hbound, Nat.le_trans (Nat.le_of_lt hsize) hset, Nat.lt_of_lt_of_le hsize hset⟩
  | next hc _ hbody =>
    obtain ⟨ht, hsize, -⟩ := hexpr hs hjob hc
    have hframe := Nat.lt_of_lt_of_le hjob hsize
    obtain ⟨hu, hsize', -⟩ := sound_of_done (hparts.block _ hframe) ht (Nat.le_refl _) hbody
    exact ⟨hu, Nat.le_trans hsize hsize', Nat.lt_of_lt_of_le hframe hsize'⟩

end Pieces

end Eval

end Scriptlet
