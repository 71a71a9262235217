import Scriptlet.Proofs.Eval.Frames

/-!
# `Proofs.Eval.Proper` — how a run ended is no value of the program

Two forms of values show a host how a piece of a program ended: an error and a value that a function
was left with. Programs cannot make either. Where a store holds none, a run never comes to hold one: not
in a frame, not as an argument or an element, and not in what it gives, whichever way it ends.

That a run ends well says nothing about one that does not end. So the second half follows a run into
the pieces that it starts, each with the store from which it is started.

## Contents
- `Value.Proper`: neither form stands anywhere inside the value. `Store.Proper`: in no frame's values.
- `Run.Proper`: from a proper store the run ends in one, with proper values; `Run.Proper.bind` composes
  it. There is one lemma for each rule of the evaluator.
- `Job`, `Asks`: a piece of a program at work, and those it starts. `Visits`: all the pieces that a run
  comes to.
- `starved_visits`: a run that uses its budget up does so in a piece that it comes to.
- `runs_proper`: all of this together.
-/

namespace Scriptlet

/-! ## Values and stores -/

/-- The value shows a host how a piece of a program ended. -/
def Value.isReport : Value → Bool
  | .error _ | .returned _ => true
  | _ => false

/-- No report stands in the place of the value or anywhere inside it. -/
abbrev Value.Proper (v : Value) : Prop := v.Every fun w => w.isReport = false

/-- No report stands in or inside the values. -/
abbrev AllProper (vs : List Value) : Prop := AllEvery (fun w => w.isReport = false) vs

theorem Value.not_isReport_of_isScalar {v : Value} (h : v.isScalar = true) : v.isReport = false := by
  cases v <;> first | rfl | cases h

theorem Value.proper_scalar {v : Value} (h : v.isScalar = true) : v.Proper :=
  every_scalar h (not_isReport_of_isScalar h)

namespace Store

/-- No report stands in or inside a value that is bound in some frame. -/
def Proper (s : Store) : Prop :=
  ∀ (i : Nat) (f : Frame), s.frames[i]? = some f → ∀ b ∈ f.bindings, b.2.Proper

variable {s t : Store}

theorem Proper.of_frames_eq (hs : s.Proper) (h : t.frames = s.frames) : t.Proper := by
  unfold Proper
  rw [h]
  exact hs

theorem Proper.get? (hs : s.Proper) {i : Nat} {name : String} {v : Value}
    (h : s.get? i name = some v) : v.Proper :=
  Every.get? hs h

theorem Proper.set (hs : s.Proper) (i : Nat) (name : String) {v : Value} (hv : v.Proper) :
    (s.set i name v).Proper :=
  Every.set hs i name hv

theorem Proper.setAll (hs : s.Proper) (i : Nat) {bs : List (String × Value)}
    (hbs : ∀ b ∈ bs, b.2.Proper) : (s.setAll i bs).Proper := by
  induction bs generalizing s with
  | nil => exact hs
  | cons b bs ih =>
    obtain ⟨hb, hrest⟩ := List.forall_mem_cons.mp hbs
    exact ih (hs.set i b.1 hb) hrest

theorem Proper.openFrame (hs : s.Proper) (outer : Option Nat) : (s.openFrame outer).2.Proper :=
  Every.openFrame hs outer

end Store

/-! ## Runs -/

/-- The run ended in a proper store, done with something that has the property or left with a proper
    value. A starved run has not ended. -/
def Outcome.Proper {α : Type} (P : α → Prop) : Outcome α → Prop
  | .done a t => t.Proper ∧ P a
  | .left v t => t.Proper ∧ v.Proper
  | .failed _ t => t.Proper
  | .starved => True

/-- From every proper store the run ends properly. -/
def Run.Proper {α : Type} (P : α → Prop) (r : Run α) : Prop := ∀ s : Store, s.Proper → (r s).Proper P

namespace Run

variable {α β : Type} {P : α → Prop} {Q : β → Prop}

theorem Proper.bind {r : Run α} {f : α → Run β} (h : r.Proper P)
    (hf : ∀ a, P a → (f a).Proper Q) : (r >>= f).Proper Q := by
  intro s hs
  have hr := h s hs
  rw [bind_apply]
  cases hrs : r s with
  | done a t =>
    rw [hrs] at hr
    exact hf a hr.2 t hr.1
  | left v t =>
    rw [hrs] at hr
    exact hr
  | failed e t =>
    rw [hrs] at hr
    exact hr
  | starved => trivial

theorem proper_pure {a : α} (ha : P a) : (pure a : Run α).Proper P := fun _ hs => ⟨hs, ha⟩

theorem proper_starve : (starve : Run α).Proper P := fun _ _ => trivial

theorem proper_fail (e : RuntimeError) : (fail e : Run α).Proper P := fun _ hs => hs

theorem proper_leave {v : Value} (hv : v.Proper) : (leave v : Run α).Proper P := fun _ hs => ⟨hs, hv⟩

theorem proper_ofExcept {r : Except RuntimeError α} (h : Eval.Gives P r) : (ofExcept r).Proper P := by
  cases r with
  | ok a => exact proper_pure (h a rfl)
  | error e => exact proper_fail e

/-- A number, a truth value or a string, or a failure. -/
theorem proper_ofScalar {r : Except RuntimeError Value} (h : Eval.GivesScalar r) :
    (ofExcept r).Proper Value.Proper :=
  proper_ofExcept fun v hv => Value.proper_scalar (h v hv)

/-- A change that leaves the frames as they are. -/
theorem proper_change {f : Store → α × Store} (hf : ∀ s, (f s).2.frames = s.frames)
    (h : ∀ s, P (f s).1) : (change f).Proper P :=
  fun s hs => ⟨hs.of_frames_eq (hf s), h s⟩

theorem Proper.call {r : Run Value} (h : r.Proper Value.Proper) : r.call.Proper Value.Proper := by
  intro s hs
  have hr := h s hs
  unfold Run.call
  cases hrs : r s with
  | done v t => rw [hrs] at hr; exact hr
  | left v t => rw [hrs] at hr; exact hr
  | failed e t => rw [hrs] at hr; exact hr
  | starved => trivial

end Run

/-! ## The evaluator -/

namespace Eval

open Run

section Lists

theorem elements_proper {expr : Expr → Run Value} (he : ∀ e, (expr e).Proper Value.Proper)
    (es : List Expr) : (elements expr es).Proper AllProper := by
  induction es with
  | nil => exact proper_pure allEvery_nil
  | cons e es ih =>
    refine (he e).bind fun v hv => ih.bind fun vs hvs => ?_
    exact proper_pure (hvs.cons hv)

theorem pairs_proper {expr : Expr → Run Value} (he : ∀ e, (expr e).Proper Value.Proper)
    {sofar : Pairs} (hs : sofar.Every fun w => w.isReport = false) (es : List Entry) :
    (pairs expr sofar es).Proper fun ps => ps.Every fun w => w.isReport = false := by
  induction es generalizing sofar with
  | nil => exact proper_pure hs
  | cons e es ih =>
    obtain ⟨k, v⟩ := e
    refine (he k).bind fun key hkey => (he v).bind fun value hvalue => ?_
    split
    · next more hmore => exact ih (Pairs.every_insert? hs hkey hvalue hmore)
    · exact proper_fail _

theorem sequence_proper {stmt : Stmt → Run Value} (hst : ∀ st, (stmt st).Proper Value.Proper)
    {last : Value} (hl : last.Proper) (ss : List Stmt) :
    (sequence stmt last ss).Proper Value.Proper := by
  induction ss generalizing last with
  | nil => exact proper_pure hl
  | cons st ss ih =>
    unfold sequence
    split
    · exact ih hl
    · exact (hst st).bind fun v hv => ih hv

end Lists

section Parts

variable {expr : ExprRun} {block : BlockRun}
  (he : ∀ e frame, (expr e frame).Proper Value.Proper)
  (hb : ∀ body frame, (block body frame).Proper Value.Proper) {frame : Nat}

include he

theorem assignment_proper (target value : Expr) :
    (assignment expr frame target value).Proper Value.Proper := by
  unfold assignment
  split
  · next name =>
    refine (he value frame).bind fun v hv => ?_
    intro s hs
    dsimp only
    split
    · next j hj => exact ⟨hs.set j name.name hv, hv⟩
    · exact hs
  · exact proper_fail _

theorem operation_proper (left : Expr) (op : BinaryOp) (right : Expr) :
    (operation expr frame left op right).Proper Value.Proper := by
  have hbool : ∀ t : Bool, (pure (.bool t) : Run Value).Proper Value.Proper :=
    fun t => proper_pure (Value.proper_scalar rfl)
  unfold operation
  split
  · exact assignment_proper he left right
  · refine (he left frame).bind fun v _ => ?_
    split
    · exact (he right frame).bind fun w _ => hbool _
    · exact hbool _
  · refine (he left frame).bind fun v _ => ?_
    split
    · exact hbool _
    · exact (he right frame).bind fun w _ => hbool _
  · refine (he left frame).bind fun v _ => (he right frame).bind fun w _ => ?_
    exact proper_ofScalar (applyBinary_scalar _ v w)

include hb

/-- What a function is left with is the value of an expression. -/
theorem statementWith_proper (st : Stmt) :
    (statementWith expr block frame st).Proper Value.Proper := by
  cases st with
  | bind name value span =>
    refine (he value frame).bind fun v hv s hs => ?_
    exact ⟨hs.set frame name.name hv, Value.proper_scalar rfl⟩
  | ret value span => exact (he value frame).bind fun v hv => proper_leave hv
  | expr value => exact he value frame
  | block body => exact hb body frame
  | blank span => exact proper_pure (Value.proper_scalar rfl)

theorem statementsWith_proper (ss : List Stmt) :
    (statementsWith expr block frame ss).Proper Value.Proper :=
  sequence_proper (statementWith_proper he hb) (Value.proper_scalar rfl) ss

end Parts

theorem nameValue_proper (frame : Nat) (name : String) :
    (nameValue frame name).Proper Value.Proper := by
  have hlook : (look fun s => s.get? frame name).Proper fun o => ∀ v, o = some v → v.Proper :=
    fun s hs => ⟨hs, fun v hv => hs.get? hv⟩
  refine hlook.bind fun o ho => ?_
  split
  · next v => exact proper_pure (ho v rfl)
  · split
    · exact proper_pure (Value.every_builtin rfl)
    · exact proper_fail _

theorem indexValue_proper {target : Value} (ht : target.Proper) (position : Value) :
    (indexValue target position).Proper Value.Proper := by
  unfold indexValue
  split
  · exact proper_pure (ht.elements.getD rfl fun v hv => element_mem hv)
  · split
    · next hfound => exact proper_pure (Pairs.every_find? ht.pairs rfl hfound)
    · exact proper_fail _
  · exact proper_fail _

theorem openFrame_proper (outer : Option Nat) :
    (change fun s => s.openFrame outer).Proper fun _ => True :=
  fun _ hs => ⟨hs.openFrame outer, trivial⟩

theorem setAll_proper {scope : Nat} {bs : List (String × Value)} (hbs : ∀ b ∈ bs, b.2.Proper) :
    (change fun s => ((), s.setAll scope bs)).Proper fun _ => True :=
  fun _ hs => ⟨hs.setAll scope hbs, trivial⟩

theorem zip_proper {names : List String} {args : List Value} (h : AllProper args) :
    ∀ b ∈ names.zip args, b.2.Proper :=
  fun b hb => h b.2 (List.of_mem_zip hb).2

/-! ### The recursive rules -/

/-- With a budget of `b` every rule ends properly. -/
structure RulesProper (b : Nat) : Prop where
  expression (e : Expr) (frame : Nat) : (expression b e frame).Proper Value.Proper
  block (body : Block) (frame : Nat) : (block b body frame).Proper Value.Proper
  apply {f : Value} {args : List Value} (hf : f.Proper) (hargs : AllProper args) :
    (apply b f args).Proper Value.Proper
  repeatWhile (condition : Expr) (body : Block) (frame : Nat) :
    (repeatWhile b condition body frame).Proper Value.Proper

variable {b : Nat}

theorem RulesProper.statements (h : RulesProper b) (ss : List Stmt) (frame : Nat) :
    (statements b ss frame).Proper Value.Proper :=
  statementsWith_proper h.expression h.block ss

theorem expression_succ_proper (h : RulesProper b) (e : Expr) (frame : Nat) :
    (expression (b + 1) e frame).Proper Value.Proper := by
  unfold expression
  cases e with
  | ident name => exact nameValue_proper frame name.name
  | int | float | bool | str => exact proper_pure (Value.proper_scalar rfl)
  | array es span =>
    refine (elements_proper (fun e => h.expression e frame) es).bind fun vs hvs => ?_
    exact proper_change (fun _ => rfl) fun s => Value.every_array rfl hvs
  | hash es span =>
    refine (pairs_proper (fun e => h.expression e frame) Pairs.every_empty es).bind fun ps hps => ?_
    exact proper_change (fun _ => rfl) fun s => hps.hash rfl
  | unary op operand span =>
    exact (h.expression operand frame).bind fun v _ => proper_ofScalar (applyUnary_scalar op v)
  | binary left op right span => exact operation_proper h.expression left op right
  | cond condition consequence alternative span =>
    refine (h.expression condition frame).bind fun v _ => ?_
    split
    · exact h.block consequence frame
    · cases alternative with
      | some body => exact h.block body frame
      | none => exact proper_pure (Value.proper_scalar rfl)
  | loop condition body span => exact h.repeatWhile condition body frame
  | func parameters body span => exact fun s hs => ⟨hs.of_frames_eq rfl, Value.every_func rfl⟩
  | call callee arguments span =>
    refine (h.expression callee frame).bind fun f hf => ?_
    refine (elements_proper (fun e => h.expression e frame) arguments).bind fun args hargs => ?_
    exact h.apply hf hargs
  | index target position span =>
    refine (h.expression target frame).bind fun v hv => ?_
    exact (h.expression position frame).bind fun w _ => indexValue_proper hv w

theorem apply_succ_proper (h : RulesProper b) {f : Value} {args : List Value}
    (hargs : AllProper args) : (apply (b + 1) f args).Proper Value.Proper := by
  unfold apply
  split
  · split
    · -- what leaves the body with a value is the value of the call
      refine (openFrame_proper _).bind fun scope _ => ?_
      refine (setAll_proper (zip_proper hargs)).bind fun _ _ => ?_
      exact (h.statements _ scope).call
    · exact proper_fail _
  · next builtin =>
    -- builtins answer with scalars and with what their arguments hold
    have hanswer := builtin.answer_every (fun _ => Value.not_isReport_of_isScalar) hargs
    refine (proper_ofExcept hanswer).bind fun a ha => ?_
    refine proper_change (fun s => Store.frames_make s a) fun s => ?_
    exact Store.make_every (P := fun w => w.isReport = false) rfl (fun _ _ => rfl) (fun _ _ => rfl)
      ha s
  · exact proper_fail _

theorem repeatWhile_succ_proper (h : RulesProper b) (condition : Expr) (body : Block) (frame : Nat) :
    (repeatWhile (b + 1) condition body frame).Proper Value.Proper := by
  unfold repeatWhile
  refine (h.expression condition frame).bind fun v _ => ?_
  split
  · exact (h.block body frame).bind fun _ _ => h.repeatWhile condition body frame
  · exact proper_pure (Value.proper_scalar rfl)

/-- Every rule ends properly, whatever the budget. -/
theorem rules_proper (b : Nat) : RulesProper b := by
  induction b with
  | zero =>
    exact ⟨fun _ _ => proper_starve, fun _ _ => proper_starve, fun _ _ => proper_starve,
      fun _ _ _ => proper_starve⟩
  | succ b ih =>
    refine ⟨expression_succ_proper ih, fun body frame => ?_, fun _ hargs => apply_succ_proper ih hargs,
      repeatWhile_succ_proper ih⟩
    unfold block
    exact (openFrame_proper _).bind fun scope _ => ih.statements body.statements scope

/-! ## The pieces of a run -/

/-- A piece of a program at work. -/
inductive Job where
  | expression (e : Expr) (frame : Nat)
  | statements (ss : List Stmt) (frame : Nat)
  | block (body : Block) (frame : Nat)
  | apply (f : Value) (args : List Value)
  | repeatWhile (condition : Expr) (body : Block) (frame : Nat)

/-- The run of a piece. -/
def Job.run (b : Nat) : Job → Run Value
  | .expression e frame => Eval.expression b e frame
  | .statements ss frame => Eval.statements b ss frame
  | .block body frame => Eval.block b body frame
  | .apply f args => Eval.apply b f args
  | .repeatWhile condition body frame => Eval.repeatWhile b condition body frame

/-- What is passed to the piece holds no report. -/
def Job.Proper : Job → Prop
  | .apply f args => f.Proper ∧ AllProper args
  | _ => True

/-- The expression or the block that a statement runs. -/
def jobOf? (frame : Nat) : Stmt → Option Job
  | .bind _ value _ | .ret value _ | .expr value => some (.expression value frame)
  | .block body => some (.block body frame)
  | .blank _ => none

/-- On the budget `b` a piece that is run from the store `s` starts another one on the budget `c`, from
    the store that what it ran before has left. -/
inductive Asks : Nat → Job → Store → Nat → Job → Store → Prop
  | statement {b frame : Nat} {s t : Store} {before after : List Stmt} {st : Stmt} {v : Value}
      {job : Job} (hbefore : statements b before frame s = .done v t)
      (hjob : jobOf? frame st = some job) :
      Asks b (.statements (before ++ st :: after) frame) s b job t
  | element {b frame : Nat} {s t : Store} {before after : List Expr} {e : Expr} {vs : List Value}
      {span : Span} (hbefore : elements (expression b · frame) before s = .done vs t) :
      Asks (b + 1) (.expression (.array (before ++ e :: after) span) frame) s b
        (.expression e frame) t
  | key {b frame : Nat} {s t : Store} {before after : List Entry} {k v : Expr} {ps : Pairs}
      {span : Span} (hbefore : pairs (expression b · frame) .empty before s = .done ps t) :
      Asks (b + 1) (.expression (.hash (before ++ ⟨k, v⟩ :: after) span) frame) s b
        (.expression k frame) t
  | value {b frame : Nat} {s t u : Store} {before after : List Entry} {k v : Expr} {ps : Pairs}
      {span : Span} {key : Value}
      (hbefore : pairs (expression b · frame) .empty before s = .done ps t)
      (hkey : expression b k frame t = .done key u) :
      Asks (b + 1) (.expression (.hash (before ++ ⟨k, v⟩ :: after) span) frame) s b
        (.expression v frame) u
  | operand {b frame : Nat} {s : Store} {op : UnaryOp} {e : Expr} {span : Span} :
      Asks (b + 1) (.expression (.unary op e span) frame) s b (.expression e frame) s
  | assigned {b frame : Nat} {s : Store} {name : Ident} {e : Expr} {span : Span} :
      Asks (b + 1) (.expression (.binary (.ident name) .assign e span) frame) s b
        (.expression e frame) s
  | left {b frame : Nat} {s : Store} {op : BinaryOp} {l r : Expr} {span : Span}
      (hop : op ≠ .assign) :
      Asks (b + 1) (.expression (.binary l op r span) frame) s b (.expression l frame) s
  | right {b frame : Nat} {s t : Store} {op : BinaryOp} {l r : Expr} {span : Span} {v : Value}
      (hop : op ≠ .assign) (hleft : expression b l frame s = .done v t)
      (hand : op = .and → v.isTruthy = true) (hor : op = .or → v.isTruthy = false) :
      Asks (b + 1) (.expression (.binary l op r span) frame) s b (.expression r frame) t
  | condition {b frame : Nat} {s : Store} {c : Expr} {body : Block} {other : Option Block}
      {span : Span} :
      Asks (b + 1) (.expression (.cond c body other span) frame) s b (.expression c frame) s
  | consequence {b frame : Nat} {s t : Store} {c : Expr} {body : Block} {other : Option Block}
      {span : Span} {v : Value} (hc : expression b c frame s = .done v t) (hv : v.isTruthy = true) :
      Asks (b + 1) (.expression (.cond c body other span) frame) s b (.block body frame) t
  | alternative {b frame : Nat} {s t : Store} {c : Expr} {body other : Block} {span : Span}
      {v : Value} (hc : expression b c frame s = .done v t) (hv : v.isTruthy = false) :
      Asks (b + 1) (.expression (.cond c body (some other) span) frame) s b (.block other frame) t
  | loop {b frame : Nat} {s : Store} {c : Expr} {body : Block} {span : Span} :
      Asks (b + 1) (.expression (.loop c body span) frame) s b (.repeatWhile c body frame) s
  | callee {b frame : Nat} {s : Store} {f : Expr} {args : List Expr} {span : Span} :
      Asks (b + 1) (.expression (.call f args span) frame) s b (.expression f frame) s
  | argument {b frame : Nat} {s t u : Store} {f e : Expr} {before after : List Expr} {span : Span}
      {g : Value} {vs : List Value} (hf : expression b f frame s = .done g t)
      (hbefore : elements (expression b · frame) before t = .done vs u) :
      Asks (b + 1) (.expression (.call f (before ++ e :: after) span) frame) s b
        (.expression e frame) u
  | call {b frame : Nat} {s t u : Store} {f : Expr} {args : List Expr} {span : Span} {g : Value}
      {vs : List Value} (hf : expression b f frame s = .done g t)
      (hargs : elements (expression b · frame) args t = .done vs u) :
      Asks (b + 1) (.expression (.call f args span) frame) s b (.apply g vs) u
  | target {b frame : Nat} {s : Store} {e i : Expr} {span : Span} :
      Asks (b + 1) (.expression (.index e i span) frame) s b (.expression e frame) s
  | position {b frame : Nat} {s t : Store} {e i : Expr} {span : Span} {v : Value}
      (he : expression b e frame s = .done v t) :
      Asks (b + 1) (.expression (.index e i span) frame) s b (.expression i frame) t
  | scope {b frame : Nat} {s : Store} {body : Block} :
      Asks (b + 1) (.block body frame) s b
        (.statements body.statements (s.openFrame (some frame)).1) (s.openFrame (some frame)).2
  | body {b frame id : Nat} {s : Store} {parameters : List Ident} {body : Block} {args : List Value}
      (hargs : parameters.length = args.length) :
      Asks (b + 1) (.apply (.func id parameters body frame) args) s b
        (.statements body.statements (s.openFrame (some frame)).1)
        ((s.openFrame (some frame)).2.setAll (s.openFrame (some frame)).1
          ((parameters.map Ident.name).zip args))
  | again {b frame : Nat} {s : Store} {c : Expr} {body : Block} :
      Asks (b + 1) (.repeatWhile c body frame) s b (.expression c frame) s
  | round {b frame : Nat} {s t : Store} {c : Expr} {body : Block} {v : Value}
      (hc : expression b c frame s = .done v t) (hv : v.isTruthy = true) :
      Asks (b + 1) (.repeatWhile c body frame) s b (.block body frame) t
  | next {b frame : Nat} {s t u : Store} {c : Expr} {body : Block} {v w : Value}
      (hc : expression b c frame s = .done v t) (hv : v.isTruthy = true)
      (hbody : block b body frame t = .done w u) :
      Asks (b + 1) (.repeatWhile c body frame) s b (.repeatWhile c body frame) u

/-- The pieces that a run comes to: itself, those it starts, those that these start, and so on. -/
inductive Visits : Nat → Job → Store → Nat → Job → Store → Prop
  | refl (b : Nat) (job : Job) (s : Store) : Visits b job s b job s
  | step {b c d : Nat} {job next last : Job} {s t u : Store} (h : Asks b job s c next t)
      (hmore : Visits c next t d last u) : Visits b job s d last u

/-! ### Nothing improper is passed -/

section Passed

variable {α : Type} {P : α → Prop} {s t : Store} {a : α}

/-- The end of a part of a run, for what comes after it. -/
theorem proper_of_done {r : Run α} (h : r.Proper P) (hs : s.Proper) (hr : r s = .done a t) :
    t.Proper ∧ P a := by
  have hend := h s hs
  rw [hr] at hend
  exact hend

theorem jobOf?_proper {frame : Nat} {st : Stmt} {job : Job} (h : jobOf? frame st = some job) :
    job.Proper := by
  cases st <;> cases h <;> trivial

/-- A piece passes no report on to those that it starts, in their arguments or in the store. -/
theorem Asks.proper {b c : Nat} {job next : Job} (h : Asks b job s c next t) (hs : s.Proper)
    (hjob : job.Proper) : t.Proper ∧ next.Proper := by
  have hrules := rules_proper c
  have hexpr := fun e frame => hrules.expression e frame
  have helements := fun frame es => elements_proper (fun e => hexpr e frame) es
  have hpairs := fun frame es => pairs_proper (fun e => hexpr e frame) Pairs.every_empty es
  cases h with
  | statement hbefore hnext =>
    exact ⟨(proper_of_done (hrules.statements _ _) hs hbefore).1, jobOf?_proper hnext⟩
  | element hbefore => exact ⟨(proper_of_done (helements _ _) hs hbefore).1, trivial⟩
  | key hbefore => exact ⟨(proper_of_done (hpairs _ _) hs hbefore).1, trivial⟩
  | value hbefore hkey =>
    have ht := (proper_of_done (hpairs _ _) hs hbefore).1
    exact ⟨(proper_of_done (hexpr _ _) ht hkey).1, trivial⟩
  | operand | assigned | left | condition | loop | callee | target | again => exact ⟨hs, trivial⟩
  | right _ he | position he | consequence he | alternative he | round he =>
    exact ⟨(proper_of_done (hexpr _ _) hs he).1, trivial⟩
  | argument hf hbefore =>
    have ht := (proper_of_done (hexpr _ _) hs hf).1
    exact ⟨(proper_of_done (helements _ _) ht hbefore).1, trivial⟩
  | call hf hargs =>
    obtain ⟨ht, hg⟩ := proper_of_done (hexpr _ _) hs hf
    obtain ⟨hu, hvs⟩ := proper_of_done (helements _ _) ht hargs
    exact ⟨hu, hg, hvs⟩
  | scope => exact ⟨hs.openFrame _, trivial⟩
  | body hlength => exact ⟨(hs.openFrame _).setAll _ (zip_proper hjob.2), trivial⟩
  | next hc _ hbody =>
    have ht := (proper_of_done (hexpr _ _) hs hc).1
    exact ⟨(proper_of_done (hrules.block _ _) ht hbody).1, trivial⟩

theorem Visits.proper {b c : Nat} {job last : Job} (h : Visits b job s c last t) (hs : s.Proper)
    (hjob : job.Proper) : t.Proper ∧ last.Proper := by
  induction h with
  | refl => exact ⟨hs, hjob⟩
  | step h _ ih =>
    obtain ⟨ht, hnext⟩ := h.proper hs hjob
    exact ih ht hnext

end Passed

/-! ### A starved run starves in a piece that it comes to -/

section Starved

variable {α β : Type} {s : Store}

theorem bind_starved {r : Run α} {f : α → Run β} (h : (r >>= f) s = .starved) :
    r s = .starved ∨ ∃ a t, r s = .done a t ∧ f a t = .starved := by
  rw [bind_apply] at h
  cases hr : r s with
  | done a t =>
    rw [hr] at h
    exact Or.inr ⟨a, t, rfl, h⟩
  | left v t => rw [hr] at h; cases h
  | failed e t => rw [hr] at h; cases h
  | starved => exact Or.inl rfl

theorem call_starved {r : Run Value} (h : r.call s = .starved) : r s = .starved := by
  unfold Run.call at h
  cases hr : r s with
  | starved => rfl
  | done v t => rw [hr] at h; cases h
  | left v t => rw [hr] at h; cases h
  | failed e t => rw [hr] at h; cases h

/-- A run that does nothing a budget could be too small for. -/
def EndsAlways (r : Run α) : Prop := ∀ s, r s ≠ .starved

theorem endsAlways_pure (a : α) : EndsAlways (pure a : Run α) := fun _ h => by cases h

theorem endsAlways_fail (e : RuntimeError) : EndsAlways (fail e : Run α) := fun _ h => by cases h

theorem endsAlways_ofExcept (r : Except RuntimeError α) : EndsAlways (ofExcept r) := by
  cases r with
  | ok a => exact endsAlways_pure a
  | error e => exact endsAlways_fail e

theorem EndsAlways.bind {r : Run α} {f : α → Run β} (h : EndsAlways r) (hf : ∀ a, EndsAlways (f a)) :
    EndsAlways (r >>= f) := by
  intro s hs
  rcases bind_starved hs with hr | ⟨a, t, -, ha⟩
  · exact h s hr
  · exact hf a t ha

theorem nameValue_endsAlways (frame : Nat) (name : String) : EndsAlways (nameValue frame name) := by
  have hlook : EndsAlways (look fun s => s.get? frame name) := fun _ h => by cases h
  refine hlook.bind fun o => ?_
  split
  · exact endsAlways_pure _
  · split
    · exact endsAlways_pure _
    · exact endsAlways_fail _

theorem indexValue_endsAlways (target position : Value) :
    EndsAlways (indexValue target position) := by
  unfold indexValue
  split
  · exact endsAlways_pure _
  · split
    · exact endsAlways_pure _
    · exact endsAlways_fail _
  · exact endsAlways_fail _

theorem elements_starved {expr : Expr → Run Value} {es : List Expr}
    (h : elements expr es s = .starved) :
    ∃ before e after vs t, es = before ++ e :: after ∧ elements expr before s = .done vs t ∧
      expr e t = .starved := by
  induction es generalizing s with
  | nil => cases h
  | cons e es ih =>
    rcases bind_starved h with he | ⟨v, t, he, hmore⟩
    · exact ⟨[], e, es, [], s, rfl, rfl, he⟩
    · rcases bind_starved hmore with hes | ⟨vs, u, -, hpure⟩
      · obtain ⟨before, x, after, vs, u, rfl, hbefore, hx⟩ := ih hes
        refine ⟨e :: before, x, after, v :: vs, u, rfl, ?_, hx⟩
        unfold elements
        rw [bind_done he, bind_done hbefore]
        rfl
      · cases hpure

theorem pairs_starved {expr : Expr → Run Value} {sofar : Pairs} {es : List Entry}
    (h : pairs expr sofar es s = .starved) :
    ∃ before k v after ps t, es = before ++ ⟨k, v⟩ :: after ∧ pairs expr sofar before s = .done ps t ∧
      (expr k t = .starved ∨ ∃ key u, expr k t = .done key u ∧ expr v u = .starved) := by
  induction es generalizing s sofar with
  | nil => cases h
  | cons e es ih =>
    obtain ⟨k, v⟩ := e
    rcases bind_starved h with hk | ⟨key, t, hk, hmore⟩
    · exact ⟨[], k, v, es, sofar, s, rfl, rfl, Or.inl hk⟩
    · rcases bind_starved hmore with hv | ⟨value, u, hv, hrest⟩
      · exact ⟨[], k, v, es, sofar, s, rfl, rfl, Or.inr ⟨key, t, hk, hv⟩⟩
      · cases hinsert : sofar.insert? key value with
        | none => rw [hinsert] at hrest; cases hrest
        | some more =>
          rw [hinsert] at hrest
          obtain ⟨before, k', v', after, ps, w, rfl, hbefore, hends⟩ := ih hrest
          refine ⟨⟨k, v⟩ :: before, k', v', after, ps, w, rfl, ?_, hends⟩
          unfold pairs
          rw [bind_done hk, bind_done hv, hinsert]
          exact hbefore

theorem sequence_starved {stmt : Stmt → Run Value} {last : Value} {ss : List Stmt}
    (h : sequence stmt last ss s = .starved) :
    ∃ before st after v t, ss = before ++ st :: after ∧ sequence stmt last before s = .done v t ∧
      stmt st t = .starved := by
  induction ss generalizing s last with
  | nil => cases h
  | cons st ss ih =>
    unfold sequence at h
    by_cases hblank : st.isBlank = true
    · rw [if_pos hblank] at h
      obtain ⟨before, x, after, v, t, rfl, hbefore, hx⟩ := ih h
      refine ⟨st :: before, x, after, v, t, rfl, ?_, hx⟩
      unfold sequence
      rwa [if_pos hblank]
    · rw [if_neg hblank] at h
      rcases bind_starved h with hst | ⟨v, t, hst, hmore⟩
      · exact ⟨[], st, ss, last, s, rfl, rfl, hst⟩
      · obtain ⟨before, x, after, w, u, rfl, hbefore, hx⟩ := ih hmore
        refine ⟨st :: before, x, after, w, u, rfl, ?_, hx⟩
        unfold sequence
        rw [if_neg hblank, bind_done hst]
        exact hbefore

end Starved

section Starves

variable {b frame : Nat} {s : Store}

theorem statement_starved {st : Stmt} (h : statement b st frame s = .starved) :
    ∃ job, jobOf? frame st = some job ∧ job.run b s = .starved := by
  cases st with
  | bind name value span =>
    rcases bind_starved h with hv | ⟨v, t, -, hset⟩
    · exact ⟨_, rfl, hv⟩
    · cases hset
  | ret value span =>
    rcases bind_starved h with hv | ⟨v, t, -, hleave⟩
    · exact ⟨_, rfl, hv⟩
    · cases hleave
  | expr value => exact ⟨_, rfl, h⟩
  | block body => exact ⟨_, rfl, h⟩
  | blank span => cases h

theorem statements_starved {ss : List Stmt} (h : statements b ss frame s = .starved) :
    ∃ job t, Asks b (.statements ss frame) s b job t ∧ job.run b t = .starved ∧
      ∀ ss' frame', job ≠ .statements ss' frame' := by
  obtain ⟨before, st, after, v, t, rfl, hbefore, hst⟩ := sequence_starved h
  obtain ⟨job, hjob, hrun⟩ := statement_starved hst
  refine ⟨job, t, .statement hbefore hjob, hrun, ?_⟩
  rintro ss' frame' rfl
  cases st <;> cases hjob

theorem operation_starved {l r : Expr} {op : BinaryOp} {span : Span}
    (h : operation (expression b) frame l op r s = .starved) :
    ∃ job t, Asks (b + 1) (.expression (.binary l op r span) frame) s b job t ∧
      job.run b t = .starved := by
  unfold operation at h
  split at h
  · -- an assignment runs its value only
    unfold assignment at h
    split at h
    · rcases bind_starved h with hv | ⟨v, t, -, hset⟩
      · exact ⟨_, _, .assigned, hv⟩
      · split at hset <;> cases hset
    · cases h
  · rcases bind_starved h with hl | ⟨v, t, hl, hmore⟩
    · exact ⟨_, _, .left (by simp), hl⟩
    · split at hmore
      · next hv =>
        rcases bind_starved hmore with hr | ⟨w, u, -, hend⟩
        · exact ⟨_, _, .right (by simp) hl (fun _ => hv) (by simp), hr⟩
        · exact absurd hend (endsAlways_pure _ _)
      · exact absurd hmore (endsAlways_pure _ _)
  · rcases bind_starved h with hl | ⟨v, t, hl, hmore⟩
    · exact ⟨_, _, .left (by simp), hl⟩
    · split at hmore
      · exact absurd hmore (endsAlways_pure _ _)
      · next hv =>
        rcases bind_starved hmore with hr | ⟨w, u, -, hend⟩
        · exact ⟨_, _, .right (by simp) hl (by simp) (fun _ => by simpa using hv), hr⟩
        · exact absurd hend (endsAlways_pure _ _)
  · next hassign hand hor =>
    rcases bind_starved h with hl | ⟨v, t, hl, hmore⟩
    · exact ⟨_, _, .left hassign, hl⟩
    · rcases bind_starved hmore with hr | ⟨w, u, -, hend⟩
      · exact ⟨_, _, .right hassign hl (fun h => absurd h hand) (fun h => absurd h hor), hr⟩
      · exact absurd hend (endsAlways_ofExcept _ u)

theorem expression_starved {e : Expr} (h : expression (b + 1) e frame s = .starved) :
    ∃ job t, Asks (b + 1) (.expression e frame) s b job t ∧ job.run b t = .starved := by
  unfold expression at h
  cases e with
  | ident name =>
    exact absurd h (nameValue_endsAlways frame name.name s)
  | int | float | bool | str | func => cases h
  | array es span =>
    rcases bind_starved h with hes | ⟨vs, t, -, hmake⟩
    · obtain ⟨before, e, after, vs, t, rfl, hbefore, he⟩ := elements_starved hes
      exact ⟨_, _, .element hbefore, he⟩
    · cases hmake
  | hash es span =>
    rcases bind_starved h with hes | ⟨ps, t, -, hmake⟩
    · obtain ⟨before, k, v, after, ps, t, rfl, hbefore, hends⟩ := pairs_starved hes
      rcases hends with hk | ⟨key, u, hk, hv⟩
      · exact ⟨_, _, .key hbefore, hk⟩
      · exact ⟨_, _, .value hbefore hk, hv⟩
    · cases hmake
  | unary op operand span =>
    rcases bind_starved h with hv | ⟨v, t, -, hend⟩
    · exact ⟨_, _, .operand, hv⟩
    · exact absurd hend (endsAlways_ofExcept _ t)
  | binary left op right span => exact operation_starved h
  | cond condition consequence alternative span =>
    rcases bind_starved h with hc | ⟨v, t, hc, hmore⟩
    · exact ⟨_, _, .condition, hc⟩
    · by_cases hv : v.isTruthy = true
      · rw [if_pos hv] at hmore
        exact ⟨_, _, .consequence hc hv, hmore⟩
      · rw [if_neg hv] at hmore
        cases alternative with
        | some other => exact ⟨_, _, .alternative hc (by simpa using hv), hmore⟩
        | none => cases hmore
  | loop condition body span => exact ⟨_, _, .loop, h⟩
  | call callee arguments span =>
    rcases bind_starved h with hf | ⟨f, t, hf, hmore⟩
    · exact ⟨_, _, .callee, hf⟩
    · rcases bind_starved hmore with hargs | ⟨vs, u, hargs, hcall⟩
      · obtain ⟨before, e, after, vs, u, rfl, hbefore, he⟩ := elements_starved hargs
        exact ⟨_, _, .argument hf hbefore, he⟩
      · exact ⟨_, _, .call hf hargs, hcall⟩
  | index target position span =>
    rcases bind_starved h with he | ⟨v, t, he, hmore⟩
    · exact ⟨_, _, .target, he⟩
    · rcases bind_starved hmore with hi | ⟨w, u, -, hend⟩
      · exact ⟨_, _, .position he, hi⟩
      · exact absurd hend (indexValue_endsAlways v w u)

theorem apply_starved {f : Value} {args : List Value} (h : apply (b + 1) f args s = .starved) :
    ∃ job t, Asks (b + 1) (.apply f args) s b job t ∧ job.run b t = .starved := by
  unfold apply at h
  split at h
  · next id parameters body frame =>
    split at h
    · next hlength =>
      rcases bind_starved h with hopen | ⟨scope, t, hopen, hmore⟩
      · cases hopen
      · cases hopen
        rcases bind_starved hmore with hset | ⟨_, u, hset, hbody⟩
        · cases hset
        · cases hset
          refine ⟨_, _, .body hlength, ?_⟩
          exact call_starved hbody
    · cases h
  · next builtin =>
    rcases bind_starved h with hanswer | ⟨a, t, -, hmake⟩
    · exact absurd hanswer (endsAlways_ofExcept _ s)
    · cases hmake
  · cases h

theorem repeatWhile_starved {condition : Expr} {body : Block}
    (h : repeatWhile (b + 1) condition body frame s = .starved) :
    ∃ job t, Asks (b + 1) (.repeatWhile condition body frame) s b job t ∧ job.run b t = .starved := by
  unfold repeatWhile at h
  rcases bind_starved h with hc | ⟨v, t, hc, hmore⟩
  · exact ⟨_, _, .again, hc⟩
  · by_cases hv : v.isTruthy = true
    · rw [if_pos hv] at hmore
      rcases bind_starved hmore with hbody | ⟨w, u, hbody, hnext⟩
      · exact ⟨_, _, .round hc hv, hbody⟩
      · exact ⟨_, _, .next hc hv hbody, hnext⟩
    · rw [if_neg hv] at hmore
      cases hmore

/-- A piece starves because one that it starts does. -/
theorem job_starved {job : Job} (hjob : ∀ ss frame', job ≠ .statements ss frame')
    (h : job.run (b + 1) s = .starved) :
    ∃ next t, Asks (b + 1) job s b next t ∧ next.run b t = .starved := by
  cases job with
  | expression e frame => exact expression_starved h
  | statements ss frame => exact absurd rfl (hjob ss frame)
  | block body frame => exact ⟨_, _, .scope, h⟩
  | apply f args => exact apply_starved h
  | repeatWhile condition body frame => exact repeatWhile_starved h

end Starves

/-- A run that uses its budget up comes to a piece for which nothing is left of it. So the pieces that
    runs on ever larger budgets come to are all there is to a run that does not end. -/
theorem starved_visits {b : Nat} {job : Job} {s : Store} (h : job.run b s = .starved) :
    ∃ last t, Visits b job s 0 last t := by
  induction b generalizing job s with
  | zero => exact ⟨job, s, .refl 0 job s⟩
  | succ b ih =>
    -- statements hand the whole budget on to a piece of another form, which spends one of it
    have hpiece : ∀ {job : Job} {s : Store}, (∀ ss frame, job ≠ .statements ss frame) →
        job.run (b + 1) s = .starved → ∃ last t, Visits (b + 1) job s 0 last t := by
      intro job s hjob h
      obtain ⟨next, t, hasks, hnext⟩ := job_starved hjob h
      obtain ⟨last, u, hlast⟩ := ih hnext
      exact ⟨last, u, .step hasks hlast⟩
    by_cases hjob : ∃ ss frame, job = .statements ss frame
    · obtain ⟨ss, frame, rfl⟩ := hjob
      obtain ⟨next, t, hasks, hnext, hne⟩ := statements_starved h
      obtain ⟨last, u, hlast⟩ := hpiece hne hnext
      exact ⟨last, u, .step hasks hlast⟩
    · exact hpiece (fun ss frame h => hjob ⟨ss, frame, h⟩) h

/-! ## Runs from proper stores -/

/-- From a store without reports no expression, no program and no call of a function on such arguments
    ends with one, whether it is done, leaves a function or fails, and none is left in a frame of the
    store. Nor does the run come to any piece that is started with a report in a frame of the store or
    among the arguments, which holds of runs that do not end as well: they use up every budget in a
    piece that they come to. -/
theorem runs_proper {s : Store} (hs : s.Proper) (b frame : Nat) :
    (∀ e, (expression b e frame s).Proper Value.Proper) ∧
      (∀ p, (program b p frame s).Proper Value.Proper) ∧
      (∀ f args, f.Proper → AllProper args → (apply b f args s).Proper Value.Proper) ∧
      (∀ job c last t, job.Proper → Visits b job s c last t → t.Proper ∧ last.Proper) ∧
      ∀ job : Job, job.run b s = .starved → ∃ last t, Visits b job s 0 last t := by
  have hrules := rules_proper b
  refine ⟨fun e => hrules.expression e frame s hs, fun p => ?_,
    fun f args hf hargs => hrules.apply hf hargs s hs,
    fun job c last t hjob hvisits => hvisits.proper hs hjob, fun job => starved_visits⟩
  exact (hrules.statements p.statements frame).call s hs

/-- In `let g = fn(a) { return a }; g(x)` the call gives the array itself. -/
theorem runs_proper_call :
    let s := ((Store.empty.openFrame none).2.set 0 "x" (.array 0 [.int 1]))
    let at0 : Span := ⟨0, 1⟩
    let body : Block := ⟨[.ret (.ident ⟨"a", at0⟩) at0], at0⟩
    let p : Program := ⟨[.bind ⟨"g", at0⟩ (.func [⟨"a", at0⟩] body at0) at0,
      .expr (.call (.ident ⟨"g", at0⟩) [.ident ⟨"x", at0⟩] at0)], at0⟩
    s.Proper ∧ ∃ t, program 9 p 0 s = .done (.array 0 [.int 1]) t ∧ t.Proper ∧
      (Value.array 0 [.int 1]).Proper := by
  intro s at0 body p
  have harray : (Value.array 0 [.int 1]).Proper := Value.every_array rfl fun v hv => by
    rw [List.mem_singleton.mp hv]
    exact Value.proper_scalar rfl
  have hempty : (Store.empty.openFrame none).2.Proper := by
    refine Store.Proper.openFrame (fun i f hf => ?_) none
    simp [Store.empty] at hf
  have hs : s.Proper := hempty.set 0 "x" harray
  have hend := (runs_proper hs 9 0).2.1 p
  exact ⟨hs, _, rfl, hend.1, hend.2⟩

end Eval

end Scriptlet
