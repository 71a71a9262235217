import Scriptlet.Grammar.Parse
import Scriptlet.Proofs.Syntax.Words

/-!
# `Proofs.Grammar.Spelled` — reading keeps spellings

A tree gets its names and its numbers from lexemes, a number also the value that its spelling has. So
the names and numbers of a program are spelled as the lexer reads them. This holds for faulty texts
too: what recovery passes over is no part of any tree.

## Contents
- `State.Spelled`: the lexemes left are spelled as the lexer reads them.
- `Rule.Yields`: a rule keeps that, and its results have a property. There is one lemma for each rule.
- `rules_yield`: the recursive rules. `parse_spelled`: the program of a text.
-/

namespace Scriptlet

/-! ## States -/

namespace State

/-- The lexemes left are spelled as the lexer reads them. -/
def Spelled (s : State) : Prop := ∀ x ∈ s.rest, x.token.Spelled

theorem Spelled.current {s : State} (h : s.Spelled) : s.current.token.Spelled := by
  unfold State.current
  cases hr : s.rest with
  | nil => trivial
  | cons x xs => exact h x (by rw [hr]; exact List.mem_cons_self)

/-- Taking lexemes leaves the others as they are. -/
theorem Spelled.of_suffix {s t : State} (h : s.Spelled) (hst : t.rest <:+ s.rest) : t.Spelled :=
  fun x hx => h x (hst.subset hx)

theorem Spelled.step {s : State} (h : s.Spelled) : s.step.Spelled := by
  refine h.of_suffix ?_
  rw [rest_step]
  exact List.tail_suffix s.rest

end State

/-! ## Rules -/

/-- A reply whose state is spelled as the lexer reads it and whose result has a property. -/
def Reply.Spelled {α : Type} (P : α → Prop) : Reply α → Prop
  | .ok a s => P a ∧ s.Spelled
  | .error _ s => s.Spelled
  | .starved => True

/-- What the rule gives at a state has a property. -/
def Rule.YieldsAt {α : Type} (P : α → Prop) (s : State) (r : Rule α) : Prop := (r s).Spelled P

/-- From lexemes that are spelled as the lexer reads them the rule gives results with a property, and
    it leaves such lexemes. -/
def Rule.Yields {α : Type} (P : α → Prop) (r : Rule α) : Prop :=
  ∀ s : State, s.Spelled → r.YieldsAt P s

namespace Rule

variable {α β : Type} {P : α → Prop} {Q : β → Prop}

theorem Yields.bind {r : Rule α} {f : α → Rule β} (hr : r.Yields P)
    (hf : ∀ a, P a → (f a).Yields Q) : (r >>= f).Yields Q := by
  intro s hs
  have hreply := hr s hs
  unfold YieldsAt at hreply ⊢
  rw [bind_apply]
  cases hrs : r s with
  | ok a t =>
    rw [hrs] at hreply
    exact hf a hreply.1 t hreply.2
  | error e t =>
    rw [hrs] at hreply
    exact hreply
  | starved => trivial

theorem yields_pure {a : α} (h : P a) : (pure a : Rule α).Yields P := fun _ hs => ⟨h, hs⟩

theorem yields_fail (fault : Fault) (span : Span) : (fail fault span : Rule α).Yields P :=
  fun _ hs => hs

theorem yields_starve : (starve : Rule α).Yields P := fun _ _ => trivial

/-- A look at the lexeme in front, which is spelled as the lexer reads it. -/
theorem yields_look_bind {f : Lexeme → Rule β}
    (h : ∀ s : State, s.Spelled → (f s.current).YieldsAt Q s) : (look >>= f).Yields Q :=
  fun s hs => h s hs

/-- What follows a lexeme that is taken may depend on it. -/
theorem yieldsAt_take_bind {f : Lexeme → Rule β} {s : State} (h : (f s.current).YieldsAt Q s.step) :
    (take >>= f).YieldsAt Q s := h

theorem yields_take : take.Yields fun x => x.token.Spelled := fun _ hs => ⟨hs.current, hs.step⟩

theorem yields_skipBlankLines : skipBlankLines.Yields fun _ => True :=
  fun s hs => ⟨trivial, hs.of_suffix s.rest_skipBlankLines_suffix⟩

theorem yields_skipOptional (t : Token) : (skipOptional t).Yields fun _ => True := by
  intro s hs
  refine ⟨trivial, ?_⟩
  by_cases ht : s.currentIs t
  · rw [if_pos ht]
    exact hs.step
  · rw [if_neg ht]
    exact hs

theorem yields_expect (t : Token) : (expect t).Yields fun _ => True := by
  intro s hs
  unfold YieldsAt expect
  by_cases ht : s.currentIs t
  · rw [if_pos ht]
    exact ⟨trivial, hs.step⟩
  · rw [if_neg ht]
    exact hs

/-! ### Lists -/

theorem moreItems_yields {item : Rule α} (hi : item.Yields P) (b : Nat) :
    (moreItems item b).Yields fun as => ∀ a ∈ as, P a := by
  induction b with
  | zero => exact yields_starve
  | succ b ih =>
    unfold moreItems
    refine yields_skipBlankLines.bind fun _ _ => yields_look_bind fun s hs => ?_
    split
    · refine Yields.bind yields_take (fun _ _ => ?_) s hs
      refine yields_skipBlankLines.bind fun _ _ => hi.bind fun first hfirst => ?_
      exact ih.bind fun others hothers => yields_pure (List.forall_mem_cons.mpr ⟨hfirst, hothers⟩)
    · exact yields_pure (fun _ ha => absurd ha List.not_mem_nil) s hs

theorem listOf_yields {item : Rule α} (hi : item.Yields P) (close : Token) (b : Nat) :
    (listOf close item b).Yields fun p => ∀ a ∈ p.1, P a := by
  unfold listOf
  refine yields_skipBlankLines.bind fun _ _ => yields_look_bind fun s hs => ?_
  split
  · refine Yields.bind (yields_expect close) (fun _ _ => ?_) s hs
    exact yields_pure fun _ ha => absurd ha List.not_mem_nil
  · refine Yields.bind hi (fun first hfirst => ?_) s hs
    refine (moreItems_yields hi b).bind fun others hothers => ?_
    exact (yields_expect close).bind fun _ _ =>
      yields_pure (List.forall_mem_cons.mpr ⟨hfirst, hothers⟩)

end Rule

/-! ## The rules of the language -/

namespace Grammar

open Rule

section Parts

variable {expr : ExprRule} {block : Rule Block} {s : State}

theorem name_yields : name.Yields fun n => (Token.ident n.name).Spelled := by
  refine yields_look_bind fun s hs => ?_
  have hcur := hs.current
  split
  · next text htext =>
    rw [htext] at hcur
    exact (yields_take.bind fun _ _ => yields_pure hcur) s hs
  · exact yields_fail _ _ s hs

/-- An integer, where one stands in front. -/
theorem integer_spelled (hs : s.Spelled) {text : String} (hx : s.current.token = .int text) :
    integer.YieldsAt Expr.Spelled s := by
  have hcur := hs.current
  rw [hx] at hcur
  refine yieldsAt_take_bind ?_
  rw [hx]
  split
  · next value hvalue =>
    have hspelled : Expr.Spelled (.int value text s.current.span) := ⟨hcur, hvalue⟩
    exact yields_pure hspelled s.step hs.step
  · exact yields_fail _ _ s.step hs.step

/-- A float, where one stands in front. -/
theorem float_spelled (hs : s.Spelled) {text : String} (hx : s.current.token = .float text) :
    float.YieldsAt Expr.Spelled s := by
  have hcur := hs.current
  rw [hx] at hcur
  refine yieldsAt_take_bind ?_
  rw [hx]
  split
  · next value hvalue =>
    have hspelled : Expr.Spelled (.float value text s.current.span) := ⟨hcur, hvalue⟩
    exact yields_pure hspelled s.step hs.step
  · exact yields_fail _ _ s.step hs.step

variable (he : ∀ l, (expr l).Yields Expr.Spelled) (hb : block.Yields Block.Spelled)

include he

theorem array_yields (b : Nat) : (array expr b).Yields Expr.Spelled := by
  unfold array
  refine (yields_expect _).bind fun _ _ => (listOf_yields (he _) _ b).bind fun p hp => ?_
  exact yields_pure ((Expr.spelledList_iff p.1).mpr hp)

theorem entry_yields : (entry expr).Yields Entry.Spelled := by
  unfold entry
  refine (he _).bind fun key hkey => yields_skipBlankLines.bind fun _ _ => ?_
  refine (yields_expect _).bind fun _ _ => (he _).bind fun value hvalue => ?_
  exact yields_pure ⟨hkey, hvalue⟩

theorem hash_yields (b : Nat) : (hash expr b).Yields Expr.Spelled := by
  unfold hash
  refine (yields_expect _).bind fun _ _ =>
    (listOf_yields (entry_yields he) _ b).bind fun p hp => ?_
  exact yields_pure ((Entry.spelledList_iff p.1).mpr hp)

theorem unary_yields : (unary expr).Yields Expr.Spelled := by
  unfold unary
  refine yields_take.bind fun x _ => ?_
  split
  · exact (he _).bind fun operand hoperand => yields_pure hoperand
  · exact yields_fail _ _

theorem group_yields : (group expr).Yields Expr.Spelled := by
  unfold group
  refine yields_take.bind fun _ _ => (he _).bind fun inner hinner => ?_
  exact yields_skipBlankLines.bind fun _ _ => (yields_expect _).bind fun _ _ => yields_pure hinner

include hb

theorem cond_yields : (cond expr block).Yields Expr.Spelled := by
  unfold cond
  refine (yields_expect _).bind fun _ _ => (he _).bind fun condition hcondition => ?_
  refine hb.bind fun consequence hconsequence => yields_look_bind fun s hs => ?_
  split
  · refine Yields.bind yields_take (fun _ _ => ?_) s hs
    exact hb.bind fun alternative halternative =>
      yields_pure ⟨hcondition, hconsequence, halternative⟩
  · exact yields_pure ⟨hcondition, hconsequence, trivial⟩ s hs

theorem loop_yields : (loop expr block).Yields Expr.Spelled := by
  unfold loop
  refine (yields_expect _).bind fun _ _ => (he _).bind fun condition hcondition => ?_
  exact hb.bind fun body hbody => yields_pure ⟨hcondition, hbody⟩

omit he in
theorem func_yields (b : Nat) : (func block b).Yields Expr.Spelled := by
  unfold func
  refine (yields_expect _).bind fun _ _ => (yields_expect _).bind fun _ _ => ?_
  refine (listOf_yields name_yields _ b).bind fun p hp => ?_
  exact hb.bind fun body hbody => yields_pure ⟨hp, hbody⟩

theorem operand_yields (b : Nat) : (operand expr block b).Yields Expr.Spelled := by
  refine yields_look_bind fun s hs => ?_
  split
  case h_1 =>
    refine Yields.bind name_yields (fun n hn => ?_) s hs
    exact yields_pure (a := Expr.ident n) hn
  case h_2 text hx => exact integer_spelled hs hx
  case h_3 text hx => exact float_spelled hs hx
  case h_4 => exact (yields_take.bind fun _ _ => yields_pure trivial) s hs
  case h_5 => exact (yields_take.bind fun _ _ => yields_pure trivial) s hs
  case h_6 => exact (yields_take.bind fun _ _ => yields_pure trivial) s hs
  case h_7 => exact unary_yields he s hs
  case h_8 => exact unary_yields he s hs
  case h_9 => exact array_yields he b s hs
  case h_10 => exact hash_yields he b s hs
  case h_11 => exact cond_yields he hb s hs
  case h_12 => exact loop_yields he hb s hs
  case h_13 => exact func_yields hb b s hs
  case h_14 => exact group_yields he s hs
  case h_15 => exact yields_fail _ _ s hs

omit hb

theorem continuation_yields (b : Nat) {left : Expr} (hl : left.Spelled) :
    (continuation expr b left).Yields Expr.Spelled := by
  refine yields_look_bind fun s hs => ?_
  split
  · unfold call
    refine Yields.bind (yields_expect _) (fun _ _ => ?_) s hs
    refine (listOf_yields (he _) _ b).bind fun p hp => ?_
    exact yields_pure ⟨hl, (Expr.spelledList_iff p.1).mpr hp⟩
  · unfold index
    refine Yields.bind (yields_expect _) (fun _ _ => ?_) s hs
    refine (he _).bind fun position hposition => yields_skipBlankLines.bind fun _ _ => ?_
    exact (yields_expect _).bind fun _ _ => yields_pure ⟨hl, hposition⟩
  · unfold binary
    refine Yields.bind yields_take (fun x _ => ?_) s hs
    split
    · exact (he _).bind fun right hright => yields_pure ⟨hl, hright⟩
    · exact yields_fail _ _

include hb

theorem statement_yields : (statement expr block).Yields Stmt.Spelled := by
  refine yields_look_bind fun s hs => ?_
  split
  · exact (yields_take.bind fun _ _ => yields_pure trivial) s hs
  · unfold letStatement
    refine Yields.bind (yields_expect _) (fun _ _ => ?_) s hs
    refine name_yields.bind fun bound hbound => (yields_expect _).bind fun _ _ => ?_
    refine (he _).bind fun value hvalue => (yields_skipOptional _).bind fun _ _ => ?_
    exact yields_pure ⟨hbound, hvalue⟩
  · unfold returnStatement
    refine Yields.bind (yields_expect _) (fun _ _ => ?_) s hs
    refine (he _).bind fun value hvalue => (yields_skipOptional _).bind fun _ _ => ?_
    exact yields_pure hvalue
  · refine Yields.bind hb (fun body hbody => ?_) s hs
    exact yields_pure (a := Stmt.block body) hbody
  · unfold expressionStatement
    refine Yields.bind (he _) (fun value hvalue => ?_) s hs
    exact (yields_skipOptional _).bind fun _ _ => yields_pure hvalue

end Parts

/-! ### The recursive rules -/

/-- The rules with budget `b` give trees whose names and numbers are spelled as the lexer reads
    them. -/
structure RulesYield (b : Nat) : Prop where
  expression : ∀ level, (expression b level).Yields Expr.Spelled
  operators : ∀ level (left : Expr), left.Spelled → (operators b level left).Yields Expr.Spelled
  block : (block b).Yields Block.Spelled
  statements : ∀ inBlock, (statements b inBlock).Yields fun ss => ∀ s ∈ ss, s.Spelled

theorem statements_succ_yields {b : Nat} (h : RulesYield b) (inBlock : Bool) :
    (statements (b + 1) inBlock).Yields fun ss => ∀ s ∈ ss, s.Spelled := by
  intro s hs
  unfold YieldsAt statements
  split
  · exact ⟨fun _ hmem => absurd hmem List.not_mem_nil, hs⟩
  split
  · exact h.statements inBlock s.step hs.step
  · have hfirst : (statement (expression b) (Grammar.block b) s).Spelled Stmt.Spelled :=
      statement_yields h.expression h.block s hs
    cases hst : statement (expression b) (Grammar.block b) s with
    | ok first t =>
      rw [hst] at hfirst
      refine Yields.bind (h.statements inBlock) (fun others hothers => ?_) t hfirst.2
      exact yields_pure (List.forall_mem_cons.mpr ⟨hfirst.1, hothers⟩)
    | error e t =>
      -- a broken statement is no part of the tree
      rw [hst] at hfirst
      have hrest : ((t.note e).recover inBlock).Spelled :=
        State.Spelled.of_suffix hfirst ((t.note e).rest_recover_suffix inBlock)
      exact h.statements inBlock _ hrest
    | starved => trivial

theorem rules_yield (b : Nat) : RulesYield b := by
  -- without a budget a rule gives no tree at all
  induction b with
  | zero =>
    exact ⟨fun _ => yields_starve, fun _ _ _ => yields_starve, yields_starve, fun _ => yields_starve⟩
  | succ b ih =>
    refine ⟨fun level => ?_, fun level left hl => ?_, ?_, statements_succ_yields ih⟩
    · unfold expression
      refine yields_skipBlankLines.bind fun _ _ => ?_
      exact (operand_yields ih.expression ih.block b).bind fun left hl => ih.operators level left hl
    · unfold operators
      refine yields_look_bind fun s hs => ?_
      split
      · refine Yields.bind (continuation_yields ih.expression b hl) (fun wider hwider => ?_) s hs
        exact ih.operators level wider hwider
      · exact yields_pure hl s hs
    · unfold block
      refine (yields_expect _).bind fun _ _ => (ih.statements true).bind fun body hbody => ?_
      exact (yields_expect _).bind fun _ _ => yields_pure ((Stmt.spelledList_iff body).mpr hbody)

end Grammar

/-- The names and numbers of a program are spelled as the lexer reads them. -/
theorem parse_spelled (source : String) : Stmt.SpelledList (parse source).program.statements := by
  have hs : (State.ofLexemes (tokenize source)).Spelled := tokenize_spelled source
  have hprogram : (Grammar.program (Grammar.budgetFor (tokenize source).length)).Yields
      fun p => Stmt.SpelledList p.statements := by
    refine Rule.yields_look_bind fun s hs => ?_
    refine Rule.Yields.bind ((Grammar.rules_yield _).statements false) (fun body hbody => ?_) s hs
    refine Rule.yields_look_bind fun t ht => ?_
    exact ⟨(Stmt.spelledList_iff body).mpr hbody, ht⟩
  have hreply : (Grammar.program (Grammar.budgetFor (tokenize source).length)
      (State.ofLexemes (tokenize source))).Spelled fun p => Stmt.SpelledList p.statements :=
    hprogram _ hs
  unfold parse parseLexemes
  cases hr : Grammar.program (Grammar.budgetFor (tokenize source).length)
      (State.ofLexemes (tokenize source)) with
  | ok p t =>
    rw [hr] at hreply
    exact hreply.1
  | error e t => trivial
  | starved => trivial

end Scriptlet
