import Scriptlet.Proofs.Eval.Footprint
import Scriptlet.Proofs.Eval.NormalAnswers
import Scriptlet.Proofs.RoundTrip

/-!
# `Proofs.Eval.Normal` — programs do the same wherever they stand

A run does not look at places, and it skips blank lines. So the normal form of a program, run from
a store of normal forms, ends as the program itself does from the store: for the same cause, or with
the normal form of its value, and in the normal form of its store. Functions that were stored and
are called later are covered, since their bodies are part of the values in the store.

Writing a program in its canonical form and reading it again keeps the normal form. So a program
shows the same afterwards.

## Contents
- `Outcome.normal`, `Run.Mirrors`: the normal form of an end, and runs that end in it.
  `Mirrors.bind` composes them; there is one lemma for each rule of the evaluator, and
  `rules_mirror` for the recursive ones.
- `Program.Ends`, `Program.Shows`: what a program shows when it is run in a new store. One that ends
  shows something (`Ends.shows`), and nothing else (`Shows.eq`).
- `parse_layout_shows`: the canonical text of a program shows the same.
-/

namespace Scriptlet

/-! ## Runs -/

/-- The end with normal forms of all values, the last one under `g`. -/
def Outcome.normal {α β : Type} (g : α → β) : Outcome α → Outcome β
  | .done a s => .done (g a) s.normal
  | .left v s => .left v.normal s.normal
  | .failed e s => .failed e s.normal
  | .starved => .starved

/-- From the normal form of a store the second run ends in the normal form of the first one's
    end. -/
def Run.Mirrors {α β : Type} (g : α → β) (r : Run α) (r' : Run β) : Prop :=
  ∀ s : Store, r' s.normal = (r s).normal g

namespace Run

variable {α α' β β' : Type} {g : α → α'} {k : β → β'}

theorem Mirrors.bind {r : Run α} {r' : Run α'} {f : α → Run β} {f' : α' → Run β'}
    (h : r.Mirrors g r') (hf : ∀ a, (f a).Mirrors k (f' (g a))) :
    (r >>= f).Mirrors k (r' >>= f') := by
  intro s
  rw [bind_apply, bind_apply, h s]
  cases r s with
  | done a t => exact hf a t
  | left v t => rfl
  | failed e t => rfl
  | starved => rfl

theorem mirrors_pure {a : α} {a' : α'} (h : a' = g a) : (pure a : Run α).Mirrors g (pure a') := by
  rw [h]
  exact fun s => rfl

theorem mirrors_fail (e : RuntimeError) : (fail e : Run α).Mirrors g (fail e) := fun _ => rfl

theorem mirrors_leave (v : Value) : (leave v : Run α).Mirrors g (leave v.normal) := fun _ => rfl

theorem mirrors_starve : (starve : Run α).Mirrors g starve := fun _ => rfl

theorem mirrors_ofExcept {r : Except RuntimeError α} {r' : Except RuntimeError α'}
    (h : Eval.Mirrors g r r') : (ofExcept r).Mirrors g (ofExcept r') := by
  rw [show r' = r.map g from h]
  cases r with
  | ok a => exact mirrors_pure rfl
  | error e => exact mirrors_fail e

/-- A scalar, or a failure. -/
theorem mirrors_ofScalar {r : Except RuntimeError Value} (h : Eval.GivesScalar r) :
    (ofExcept r).Mirrors Value.normal (ofExcept r) := by
  cases r with
  | ok v => exact mirrors_pure (Value.normal_of_isScalar (h v rfl)).symm
  | error e => exact mirrors_fail e

theorem mirrors_change {f : Store → α × Store} {f' : Store → α' × Store}
    (h : ∀ s, f' s.normal = (g (f s).1, (f s).2.normal)) :
    (change f).Mirrors g (change f') := by
  intro s
  unfold change
  rw [h]
  rfl

theorem Mirrors.call {r r' : Run Value} (h : r.Mirrors Value.normal r') :
    r.call.Mirrors Value.normal r'.call := by
  intro s
  unfold Run.call
  rw [h s]
  cases r s <;> rfl

end Run

/-! ## Blank lines -/

namespace Eval

open Run

section Blank

variable {stmt : Stmt → Run Value} {last : Value}

/-- A sequence does what its statements that are no blank lines do. -/
theorem sequence_filter (ss : List Stmt) :
    sequence stmt last (ss.filter (!Stmt.isBlank ·)) = sequence stmt last ss := by
  induction ss generalizing last with
  | nil => rfl
  | cons st ss ih =>
    rw [sequence]
    by_cases hst : st.isBlank
    -- a blank line is filtered out on one side and skipped on the other
    · rw [List.filter_cons_of_neg (by simp [hst]), if_pos hst, ih]
    · rw [List.filter_cons_of_pos (by simp [hst]), if_neg hst, sequence, if_neg hst]
      exact congrArg (stmt st >>= ·) (funext fun v => ih)

theorem sequence_trimGaps (ss : List Stmt) :
    sequence stmt last (trimGaps Stmt.isBlank ss) = sequence stmt last ss := by
  rw [← sequence_filter, filter_trimGaps, sequence_filter]

end Blank

end Eval

theorem Block.statements_normal (b : Block) :
    b.normal.statements = trimGaps Stmt.isBlank (b.statements.map Stmt.normal) := by
  rw [← Stmt.normalList_eq]
  cases b
  rfl

theorem Program.statements_normal (p : Program) :
    p.normal.statements = trimGaps Stmt.isBlank (p.statements.map Stmt.normal) := by
  rw [← Stmt.normalList_eq]
  rfl

/-! ## The evaluator -/

namespace Eval

open Run

section Lists

theorem elements_mirror {expr : Expr → Run Value}
    (he : ∀ e, (expr e).Mirrors Value.normal (expr e.normal)) (es : List Expr) :
    (elements expr es).Mirrors (List.map Value.normal) (elements expr (es.map Expr.normal)) := by
  induction es with
  | nil => exact mirrors_pure rfl
  | cons e es ih =>
    apply (he e).bind
    intro v
    exact ih.bind fun vs => mirrors_pure rfl

theorem pairs_mirror {expr : Expr → Run Value}
    (he : ∀ e, (expr e).Mirrors Value.normal (expr e.normal)) (sofar : Pairs) (es : List Entry) :
    (pairs expr sofar es).Mirrors Pairs.normal
      (pairs expr sofar.normal (es.map Entry.normal)) := by
  induction es generalizing sofar with
  | nil => exact mirrors_pure rfl
  | cons e es ih =>
    obtain ⟨k, v⟩ := e
    apply (he k).bind
    intro key
    apply (he v).bind
    intro value
    rw [Pairs.insert?_normal, Value.kind_normal]
    cases sofar.insert? key value with
    | none => exact mirrors_fail _
    | some more => exact ih more

theorem sequence_mirrors {stmt : Stmt → Run Value}
    (hst : ∀ st, (stmt st).Mirrors Value.normal (stmt st.normal)) (last : Value)
    (ss : List Stmt) :
    (sequence stmt last ss).Mirrors Value.normal
      (sequence stmt last.normal (ss.map Stmt.normal)) := by
  induction ss generalizing last with
  | nil => exact mirrors_pure rfl
  | cons st ss ih =>
    rw [List.map_cons, sequence, sequence, Stmt.isBlank_normal]
    split
    · exact ih last
    · apply (hst st).bind
      intro v
      exact ih v

end Lists

/-- Expressions and blocks do the same in their normal form. -/
structure PartsMirror (expr : ExprRun) (block : BlockRun) : Prop where
  expression : ∀ e frame, (expr e frame).Mirrors Value.normal (expr e.normal frame)
  block : ∀ body frame, (block body frame).Mirrors Value.normal (block body.normal frame)

section Parts

variable {expr : ExprRun} {block : BlockRun} (h : PartsMirror expr block) (frame : Nat)

include h

theorem statementWith_mirrors (st : Stmt) :
    (statementWith expr block frame st).Mirrors Value.normal
      (statementWith expr block frame st.normal) := by
  cases st with
  | bind name value span =>
    apply (h.expression value frame).bind
    intro v
    apply mirrors_change
    intro s
    exact congrArg (Value.null, ·) (s.set_normal frame name.name v)
  | ret value span => exact (h.expression value frame).bind fun v => mirrors_leave v
  | expr value => exact h.expression value frame
  | block body => exact h.block body frame
  | blank span => exact mirrors_pure rfl

theorem statementsWith_mirrors (ss : List Stmt) :
    (statementsWith expr block frame ss).Mirrors Value.normal
      (statementsWith expr block frame (trimGaps Stmt.isBlank (ss.map Stmt.normal))) := by
  unfold statementsWith
  rw [sequence_trimGaps]
  exact sequence_mirrors (statementWith_mirrors h frame) .null ss

omit h in
theorem nameValue_mirrors (name : String) :
    (nameValue frame name).Mirrors Value.normal (nameValue frame name) := by
  have hlook : (look fun s => s.get? frame name).Mirrors (Option.map Value.normal)
      (look fun s => s.get? frame name) :=
    fun s => congrArg (Outcome.done · s.normal) (s.get?_normal frame name)
  apply hlook.bind
  intro o
  cases o with
  | some v => exact mirrors_pure rfl
  | none =>
    dsimp only [Option.map]
    split
    · exact mirrors_pure rfl
    · exact mirrors_fail _

/-- The message about a target that is no name shows how the target is written, on one line. -/
theorem assignment_mirrors (target value : Expr) :
    (assignment expr frame target value).Mirrors Value.normal
      (assignment expr frame target.normal value.normal) := by
  cases target with
  | ident name =>
    apply (h.expression value frame).bind
    intro v s
    have hholder : s.normal.holder? frame name.normal.name = s.holder? frame name.name :=
      s.holder?_normal frame name.name
    dsimp only
    rw [hholder]
    cases s.holder? frame name.name with
    | none => rfl
    | some j => exact congrArg (Outcome.done v.normal) (s.set_normal j name.name v)
  | _ =>
    -- every other target is refused before anything is run, and the message quotes it
    intro s
    exact congrArg (fun text => Outcome.failed (.badTarget text) s.normal) (Expr.render_normal _)

theorem operation_mirrors (left : Expr) (op : BinaryOp) (right : Expr) :
    (operation expr frame left op right).Mirrors Value.normal
      (operation expr frame left.normal op right.normal) := by
  have hleft := h.expression left frame
  have hright := h.expression right frame
  unfold operation
  split
  · exact assignment_mirrors h frame left right
  · apply hleft.bind
    intro v
    rw [v.isTruthy_normal]
    split
    · exact hright.bind fun w => mirrors_pure (congrArg Value.bool w.isTruthy_normal)
    · exact mirrors_pure rfl
  · apply hleft.bind
    intro v
    rw [v.isTruthy_normal]
    split
    · exact mirrors_pure rfl
    · exact hright.bind fun w => mirrors_pure (congrArg Value.bool w.isTruthy_normal)
  · apply hleft.bind
    intro v
    apply hright.bind
    intro w
    rw [applyBinary_normal]
    exact mirrors_ofScalar (applyBinary_scalar _ v w)

omit h in
theorem indexValue_mirrors (target position : Value) :
    (indexValue target position).Mirrors Value.normal
      (indexValue target.normal position.normal) := by
  cases target with
  | array id vs =>
    rw [Value.normal_array]
    cases position with
    | int i =>
      apply mirrors_pure
      rw [List.length_map, element_normal, getD_normal]
    | _ => exact mirrors_fail _
  | hash id ps =>
    show (indexValue (.hash id ps) position).Mirrors Value.normal
      (indexValue (.hash id ps.normal) position.normal)
    unfold indexValue
    dsimp only
    rw [Pairs.find?_normal, Value.kind_normal]
    cases ps.find? position with
    | none => exact mirrors_fail _
    | some found =>
      apply mirrors_pure
      cases found with
      | none => rfl
      | some p => exact p.value_normal
  | _ =>
    intro s
    exact congrArg (fun kind => Outcome.failed (.notIndexable _ kind) s.normal)
      position.kind_normal

omit h in
/-- What is run in a frame that is opened for it. -/
theorem opened_mirrors {r r' : Nat → Run Value}
    (hr : ∀ scope, (r scope).Mirrors Value.normal (r' scope)) :
    (change (fun s => s.openFrame (some frame)) >>= r).Mirrors Value.normal
      (change (fun s => s.openFrame (some frame)) >>= r') := by
  have hopen : (change fun s => s.openFrame (some frame)).Mirrors id
      (change fun s => s.openFrame (some frame)) :=
    mirrors_change fun s => s.openFrame_normal (some frame)
  exact hopen.bind hr

/-- A function's body is run in a frame that is opened for the arguments. -/
theorem body_mirrors (bs : List (String × Value)) (ss : List Stmt) :
    (do
      let scope ← change fun s => s.openFrame (some frame)
      change fun s => ((), s.setAll scope bs)
      call (statementsWith expr block scope ss) : Run Value).Mirrors Value.normal
    (do
      let scope ← change fun s => s.openFrame (some frame)
      change fun s => ((), s.setAll scope (bs.map normalBinding))
      call (statementsWith expr block scope (trimGaps Stmt.isBlank (ss.map Stmt.normal)))) := by
  apply opened_mirrors
  intro scope
  have hbind : (change fun s => ((), s.setAll scope bs)).Mirrors id
      (change fun s => ((), s.setAll scope (bs.map normalBinding))) :=
    mirrors_change fun s => congrArg ((), ·) (s.setAll_normal scope bs)
  exact hbind.bind fun _ => (statementsWith_mirrors h scope ss).call

end Parts

theorem zip_normal (parameters : List Ident) (args : List Value) :
    ((parameters.map Ident.normal).map Ident.name).zip (args.map Value.normal) =
      ((parameters.map Ident.name).zip args).map normalBinding := by
  rw [List.map_map, List.zip_map_right]
  rfl

/-! ### The recursive rules -/

/-- With this budget every rule does the same for normal forms. -/
structure RulesMirror (b : Nat) : Prop where
  parts : PartsMirror (expression b) (block b)
  apply : ∀ f args, (apply b f args).Mirrors Value.normal (apply b f.normal (args.map Value.normal))
  repeatWhile : ∀ condition body frame, (repeatWhile b condition body frame).Mirrors Value.normal
    (repeatWhile b condition.normal body.normal frame)

variable {b : Nat}

theorem expression_succ_mirrors (h : RulesMirror b) (e : Expr) (frame : Nat) :
    (expression (b + 1) e frame).Mirrors Value.normal (expression (b + 1) e.normal frame) := by
  have he := fun e => h.parts.expression e frame
  cases e with
  | ident name => exact nameValue_mirrors frame name.name
  | int value spelling span => exact mirrors_pure rfl
  | float value spelling span => exact mirrors_pure rfl
  | bool value span => exact mirrors_pure rfl
  | str value span => exact mirrors_pure rfl
  | array es span =>
    unfold Expr.normal expression
    rw [Expr.normalList_eq]
    apply (elements_mirror he es).bind
    intro vs
    exact mirrors_change fun s => s.makeArray_normal vs
  | hash es span =>
    unfold Expr.normal expression
    rw [Entry.normalList_eq]
    apply (pairs_mirror he .empty es).bind
    intro ps
    exact mirrors_change fun s => rfl
  | unary op operand span =>
    apply (he operand).bind
    intro v
    rw [applyUnary_normal]
    exact mirrors_ofScalar (applyUnary_scalar op v)
  | binary left op right span => exact operation_mirrors h.parts frame left op right
  | cond condition consequence alternative span =>
    apply (he condition).bind
    intro v
    rw [v.isTruthy_normal]
    split
    · exact h.parts.block consequence frame
    · cases alternative with
      | some body => exact h.parts.block body frame
      | none => exact mirrors_pure rfl
  | loop condition body span => exact h.repeatWhile condition body frame
  | func parameters body span =>
    -- the function keeps its body as it is written, and so in the normal form
    exact fun s => rfl
  | call callee arguments span =>
    unfold Expr.normal expression
    rw [Expr.normalList_eq]
    apply (he callee).bind
    intro f
    apply (elements_mirror he arguments).bind
    intro args
    exact h.apply f args
  | index target position span =>
    apply (he target).bind
    intro v
    apply (he position).bind
    intro w
    exact indexValue_mirrors v w

theorem block_succ_mirrors (h : RulesMirror b) (body : Block) (frame : Nat) :
    (block (b + 1) body frame).Mirrors Value.normal (block (b + 1) body.normal frame) := by
  unfold block
  rw [Block.statements_normal]
  apply opened_mirrors
  intro scope
  exact statementsWith_mirrors h.parts scope body.statements

theorem apply_succ_mirrors (h : RulesMirror b) (f : Value) (args : List Value) :
    (apply (b + 1) f args).Mirrors Value.normal
      (apply (b + 1) f.normal (args.map Value.normal)) := by
  cases f with
  | func _ parameters body frame =>
    -- the normal form of a function has the normal form of its body, with fewer blank lines
    unfold Value.normal apply
    dsimp only
    rw [List.length_map, List.length_map, zip_normal, Block.statements_normal]
    split
    · exact body_mirrors h.parts frame _ body.statements
    · exact mirrors_fail _
  | builtin builtin =>
    apply (mirrors_ofExcept (builtin.answer_mirrors args)).bind
    intro answer
    exact mirrors_change fun s => s.make_normal answer
  | _ => exact mirrors_fail _

theorem repeatWhile_succ_mirrors (h : RulesMirror b) (condition : Expr) (body : Block)
    (frame : Nat) :
    (repeatWhile (b + 1) condition body frame).Mirrors Value.normal
      (repeatWhile (b + 1) condition.normal body.normal frame) := by
  apply (h.parts.expression condition frame).bind
  intro v
  rw [v.isTruthy_normal]
  split
  · apply (h.parts.block body frame).bind
    intro _
    exact h.repeatWhile condition body frame
  · exact mirrors_pure rfl

/-- By induction on the budget, since each rule uses the others with the budget below. -/
theorem rules_mirror (b : Nat) : RulesMirror b := by
  induction b with
  | zero =>
    exact ⟨⟨fun _ _ => mirrors_starve, fun _ _ => mirrors_starve⟩, fun _ _ => mirrors_starve,
      fun _ _ _ => mirrors_starve⟩
  | succ b ih =>
    exact ⟨⟨expression_succ_mirrors ih, block_succ_mirrors ih⟩, apply_succ_mirrors ih,
      repeatWhile_succ_mirrors ih⟩

/-- The normal form of a program ends in the normal form of the program's end. -/
theorem program_mirrors (b : Nat) (p : Program) (frame : Nat) :
    (program b p frame).Mirrors Value.normal (program b p.normal frame) := by
  unfold program statements
  rw [Program.statements_normal]
  exact (statementsWith_mirrors (rules_mirror b).parts frame p.statements).call

/-- Programs with the same normal form, run from stores with the same normal form, end in the same
    normal form. -/
theorem program_alike {p q : Program} (hpq : p.normal = q.normal) (b frame : Nat) {s t : Store}
    (hst : s.normal = t.normal) :
    (program b p frame s).normal Value.normal = (program b q frame t).normal Value.normal := by
  rw [← program_mirrors b p frame s, ← program_mirrors b q frame t, hpq, hst]

end Eval

/-! ## What a program shows -/

/-- What shows of the end of a run: the text that was printed, and either the kind and the text of
    the value or the cause of the failure. -/
inductive Shown where
  | value (printed : String) (kind : Kind) (text : String)
  | failure (printed : String) (error : RuntimeError)
deriving DecidableEq

/-- What shows of the end, if the run is not starved. -/
def Outcome.shown? : Outcome Value → Option Shown
  | .done v s => some (.value s.output v.kind v.text)
  | .failed e s => some (.failure s.output e)
  | .left .. | .starved => none

theorem Outcome.shown?_normal (o : Outcome Value) : (o.normal Value.normal).shown? = o.shown? := by
  cases o with
  | done v s =>
    show some (Shown.value s.output v.normal.kind v.normal.text) = some (.value s.output _ _)
    rw [v.kind_normal, v.text_normal]
  | left v s => rfl
  | failed e s => rfl
  | starved => rfl

namespace Program

/-- The run of a program in a new store, in a frame that stands alone. -/
def run (p : Program) (budget : Nat) : Outcome Value :=
  let (root, store) := Store.empty.openFrame none
  Eval.program budget p root store

/-- The program ends with a budget that is large enough. -/
def Ends (p : Program) : Prop := ∃ budget, p.run budget ≠ .starved

/-- The program ends with a budget that is large enough, and this shows. -/
def Shows (p : Program) (shown : Shown) : Prop :=
  ∃ budget, (p.run budget).shown? = some shown

variable {p q : Program}

/-- A program cannot be left, since it is run like the body of a function. So it shows something
    unless it is starved. -/
theorem starved_of_shown? {b : Nat} (h : (p.run b).shown? = none) : p.run b = .starved := by
  have hcall : ∀ r : Run Value, ∀ s, (r.call s).shown? = none → r.call s = .starved := by
    intro r s hnone
    unfold Run.call at hnone ⊢
    generalize r s = o at hnone ⊢
    cases o with
    | done v t | left v t | failed e t => cases hnone
    | starved => rfl
  exact hcall _ _ h

/-- A program that ends shows something. -/
theorem Ends.shows (h : p.Ends) : ∃ x, p.Shows x := by
  obtain ⟨b, hb⟩ := h
  cases hx : (p.run b).shown? with
  | none => exact absurd (starved_of_shown? hx) hb
  | some x => exact ⟨x, b, hx⟩

theorem ne_starved_of_shown? {b : Nat} {x : Shown} (h : (p.run b).shown? = some x) :
    p.run b ≠ .starved := by
  intro hstarved
  rw [hstarved] at h
  cases h

theorem Shows.ends {x : Shown} (h : p.Shows x) : p.Ends := by
  obtain ⟨b, hx⟩ := h
  exact ⟨b, ne_starved_of_shown? hx⟩

/-- What a program shows it shows with all larger budgets. -/
theorem shown?_of_le {b b' : Nat} (hb : b ≤ b') {x : Shown} (hx : (p.run b).shown? = some x) :
    (p.run b').shown? = some x := by
  have hsame : p.run b' = p.run b := Eval.program_of_le hb (ne_starved_of_shown? hx)
  rw [hsame, hx]

/-- A program shows one thing at most, whatever its budget. -/
theorem Shows.eq {x y : Shown} (hx : p.Shows x) (hy : p.Shows y) : x = y := by
  obtain ⟨b, hx⟩ := hx
  obtain ⟨b', hy⟩ := hy
  rcases Nat.le_total b b' with hb | hb
  · exact Option.some.inj ((shown?_of_le hb hx).symm.trans hy)
  · exact Option.some.inj (hx.symm.trans (shown?_of_le hb hy))

theorem Shows.iff_eq {x y : Shown} (hx : p.Shows x) : p.Shows y ↔ y = x := by
  constructor
  · intro hy
    exact hy.eq hx
  · rintro rfl
    exact hx

/-- Programs with the same normal form show the same. -/
theorem Shows.of_normal {x : Shown} (hx : p.Shows x) (hpq : p.normal = q.normal) : q.Shows x := by
  obtain ⟨b, hx⟩ := hx
  refine ⟨b, ?_⟩
  have halike : (p.run b).normal Value.normal = (q.run b).normal Value.normal :=
    Eval.program_alike hpq b _ rfl
  rw [← Outcome.shown?_normal, ← halike, Outcome.shown?_normal, hx]

theorem Ends.of_normal (hp : p.Ends) (hpq : p.normal = q.normal) : q.Ends := by
  obtain ⟨x, hx⟩ := hp.shows
  exact (hx.of_normal hpq).ends

end Program

/-- The program that the canonical text of a source is does what the program of the source does. One
    ends if and only if the other does, and then there is one thing that shows of both. From stores
    that hold the same up to places and blank lines in functions, both end alike up to these. -/
theorem parse_layout_shows {indent : Indent} (hi : isSpacing indent.char = true)
    (source : String) :
    let p := (parse source).program
    let q := (parse (p.layout indent)).program
    (p.Ends ↔ q.Ends) ∧ (p.Ends → ∃ x, ∀ y, (p.Shows y ↔ y = x) ∧ (q.Shows y ↔ y = x)) ∧
      ∀ budget frame s t, s.normal = t.normal →
        (Eval.program budget p frame s).normal Value.normal =
          (Eval.program budget q frame t).normal Value.normal := by
  intro p q
  have hpq : p.normal = q.normal := (parse_layout_parse hi source).2.1.symm
  refine ⟨⟨fun hp => hp.of_normal hpq, fun hq => hq.of_normal hpq.symm⟩, ?_, ?_⟩
  · intro hp
    obtain ⟨x, hx⟩ := hp.shows
    have hqx : q.Shows x := hx.of_normal hpq
    exact ⟨x, fun y => ⟨hx.iff_eq, hqx.iff_eq⟩⟩
  · intro budget frame s t hst
    exact Eval.program_alike hpq budget frame hst

/-- A function that is printed and called twice, with blank lines and grouping in its body. -/
theorem parse_layout_shows_tab :
    let source := "let n = 1\nlet f = fn(a) \x7b\n\n\n n = (n + (a))\n\n\x7d\nprint(f)\nf(2); f(3)"
    let tabs : Indent := ⟨'\t', 1⟩
    let p := (parse source).program
    let q := (parse (p.layout tabs)).program
    let shown : Shown := .value "fn(a) \x7b (n = (n + a)) \x7d\n" .integer "6"
    isSpacing tabs.char = true ∧ p.Shows shown ∧ q.Shows shown := by
  intro source tabs p q shown
  have htab : isSpacing tabs.char = true := by decide
  have hp : p.Shows shown := ⟨9, by decide +kernel⟩
  obtain ⟨x, hx⟩ := (parse_layout_shows htab source).2.1 hp.ends
  have heq : shown = x := (hx shown).1.mp hp
  exact ⟨htab, hp, (hx shown).2.mpr heq⟩

end Scriptlet
