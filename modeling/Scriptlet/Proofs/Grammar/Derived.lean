import Scriptlet.Proofs.Grammar.Kept

/-!
# `Proofs.Grammar.Derived` — what is read is written

`Proofs.Grammar.Written` says which lexemes a tree is written with, and that reading these gives the
tree back. This module has the converse: where reading notes no fault, the lexemes that were taken are
those that the tree is written with. So the clauses of `Written` and the rules of the grammar describe
the same texts, and what holds of every reading can be proved over the clauses.

## Contents
- `Rule.DerivesAt`: what holds of a rule's result, the lexemes it took and the token behind them, if no
  fault was noted. `Rule.DerivesAt.bind` composes it.
- `Stands`: an expression that an operator of some level may stand before and some token after.
- `rules_derive`: the recursive rules take what their results are written with.
- `written_of_parseLexemes`: a whole list of lexemes.
-/

namespace Scriptlet

/-! ## Rules -/

/-- What holds of a rule's result at `s` where no fault is noted: `P` is told the result, the lexemes
    taken and the token after these. -/
def Rule.DerivesAt {α : Type} (s : State) (P : α → List Lexeme → Token → Prop) (r : Rule α) : Prop :=
  ∀ a t, r s = .ok a t → t.errors = [] → ∃ xs, s.Through xs t ∧ P a xs t.current.token

theorem State.Through.append {s t u : State} {xs ys : List Lexeme} (h : s.Through xs t)
    (h' : t.Through ys u) : s.Through (xs ++ ys) u := by
  refine ⟨?_, ?_, h'.errors.trans h.errors⟩
  · rw [h.rest, h'.rest, List.append_assoc]
  · rw [h'.stop, h.stop, lastStop_append]

theorem State.through_step {s : State} (h : s.current.token ≠ .eof) :
    s.Through [s.current] s.step := by
  obtain ⟨xs, hrest⟩ := State.rest_eq_cons h
  unfold State.step
  rw [hrest]
  exact ⟨hrest, rfl, rfl⟩

theorem State.through_skipBlankLines (s : State) :
    ∃ bs, Blanks bs ∧ s.Through bs s.skipBlankLines := by
  obtain ⟨bs, hb, hrest, hstop⟩ := State.dropBlankLines_eq s.rest s.stop
  exact ⟨bs, hb, hrest, hstop, rfl⟩

theorem State.notBlank_skipBlankLines (s : State) : NotBlank s.skipBlankLines.current.token := by
  obtain ⟨rest, stop, errors⟩ := s
  induction rest generalizing stop with
  | nil => rintro ⟨⟩
  | cons x xs ih =>
    rw [State.skipBlankLines_eq, State.current_cons, State.step_cons]
    by_cases hx : x.token = .blankLine
    · rw [if_pos hx]
      exact ih x.stop
    · rw [if_neg hx, State.current_cons]
      exact hx

namespace Rule

variable {α β : Type} {s : State} {P : α → List Lexeme → Token → Prop}
  {Q : β → List Lexeme → Token → Prop}

theorem DerivesAt.mono {P' : α → List Lexeme → Token → Prop} {r : Rule α} (hr : r.DerivesAt s P)
    (h : ∀ a xs next, P a xs next → P' a xs next) : r.DerivesAt s P' := by
  intro a t ht hnone
  obtain ⟨xs, hst, ha⟩ := hr a t ht hnone
  exact ⟨xs, hst, h a xs _ ha⟩

/-- The second rule goes on behind the lexemes that the first one took. What these are is told to it
    only at its end: that no fault was noted before is not known earlier. -/
theorem DerivesAt.bind {r : Rule α} {f : α → Rule β} (hr : r.DerivesAt s P)
    (hf : ∀ a t, (f a).DerivesAt t fun b ys next =>
      ∀ xs, P a xs t.current.token → Q b (xs ++ ys) next) : (r >>= f).DerivesAt s Q := by
  intro b u hu hnone
  obtain ⟨a, t, hrs, hft⟩ := bind_eq_ok.mp hu
  obtain ⟨ys, htu, hb⟩ := hf a t b u hft hnone
  obtain ⟨xs, hst, ha⟩ := hr a t hrs (htu.errors ▸ hnone)
  exact ⟨xs ++ ys, hst.append htu, hb xs ha⟩

/-- A last step that takes nothing. -/
theorem DerivesAt.map {r : Rule α} {f : α → β} (hr : r.DerivesAt s P)
    (h : ∀ a xs next, P a xs next → Q (f a) xs next) :
    (r >>= fun a => pure (f a)).DerivesAt s Q := by
  intro b u hu hnone
  obtain ⟨a, t, hrs, hft⟩ := bind_eq_ok.mp hu
  cases hft
  obtain ⟨xs, hst, ha⟩ := hr a u hrs hnone
  exact ⟨xs, hst, h a xs _ ha⟩

/-- A first step that takes some lexemes and cannot fail. -/
theorem derivesAt_of_through {r r' : Rule β} {t : State} {xs : List Lexeme} (hst : s.Through xs t)
    (h : r'.DerivesAt t fun b ys next => Q b (xs ++ ys) next) (hr : r s = r' t) :
    r.DerivesAt s Q := by
  intro b u hu hnone
  rw [hr] at hu
  obtain ⟨ys, htu, hb⟩ := h b u hu hnone
  exact ⟨xs ++ ys, hst.append htu, hb⟩

theorem derives_pure {a : α} (h : P a [] s.current.token) : (pure a : Rule α).DerivesAt s P := by
  intro a' t ht _
  cases ht
  exact ⟨[], State.through_nil s, h⟩

theorem derives_fail (fault : Fault) (span : Span) : (fail fault span : Rule α).DerivesAt s P :=
  fun _ _ h => nomatch h

theorem derives_starve : (starve : Rule α).DerivesAt s P := fun _ _ h => nomatch h

/-! ### Single lexemes -/

theorem derives_look_bind {f : Lexeme → Rule β} (h : (f s.current).DerivesAt s Q) :
    (look >>= f).DerivesAt s Q := h

theorem derives_take_bind {f : Lexeme → Rule β} (hne : s.current.token ≠ .eof)
    (h : (f s.current).DerivesAt s.step fun b ys next => Q b (s.current :: ys) next) :
    (take >>= f).DerivesAt s Q :=
  derivesAt_of_through (State.through_step hne) h (take_bind f s)

theorem derives_skipBlankLines_bind {f : Unit → Rule β}
    (h : ∀ bs t, Blanks bs → NotBlank t.current.token →
      (f ()).DerivesAt t fun b ys next => Q b (bs ++ ys) next) :
    (skipBlankLines >>= f).DerivesAt s Q := by
  obtain ⟨bs, hb, hst⟩ := s.through_skipBlankLines
  exact derivesAt_of_through hst (h bs _ hb s.notBlank_skipBlankLines) (skipBlankLines_bind f s)

theorem derives_expect_bind {token : Token} {f : Span → Rule β} (hx : token.isFixed = true)
    (h : ∀ x t, x.token = token →
      (f x.span).DerivesAt t fun b ys next => Q b (x :: ys) next) :
    (expect token >>= f).DerivesAt s Q := by
  by_cases hcur : s.currentIs token = true
  · have htoken : s.current.token = token := State.token_of_currentIs hx hcur
    have hne : s.current.token ≠ .eof := by
      unfold Token.isFixed at hx
      rw [Bool.and_eq_true] at hx
      rw [htoken]
      exact Token.ne_eof_of_isWord hx.1
    refine derivesAt_of_through (State.through_step hne) (h s.current s.step htoken) ?_
    rw [bind_apply]
    unfold expect
    rw [if_pos hcur]
  · intro b u hu _
    obtain ⟨a, t, ht, -⟩ := bind_eq_ok.mp hu
    unfold expect at ht
    rw [if_neg hcur] at ht
    cases ht

/-! ### Lists -/

section Lists

variable {W : α → List Lexeme → Prop} {item : Rule α}

/-- Items, and one after another what they are written with. -/
def Items (W : α → List Lexeme → Prop) (as : List α) (pieces : List (List Lexeme)) : Prop :=
  ∃ items : List (α × List Lexeme), (∀ i ∈ items, W i.1 i.2) ∧ items.map Prod.fst = as ∧
    items.map Prod.snd = pieces

theorem Items.nil : Items W [] [] := ⟨[], by simp, rfl, rfl⟩

theorem Items.cons {a : α} {as : List α} {xs : List Lexeme} {pieces : List (List Lexeme)}
    (ha : W a xs) (h : Items W as pieces) : Items W (a :: as) (xs :: pieces) := by
  obtain ⟨items, hitems, rfl, rfl⟩ := h
  exact ⟨(a, xs) :: items, List.forall_mem_cons.mpr ⟨ha, hitems⟩, rfl, rfl⟩

variable (hi : ∀ s : State, NotBlank s.current.token → item.DerivesAt s fun a xs _ => W a xs)

include hi

theorem moreItems_derives (b : Nat) (s : State) : (moreItems item b).DerivesAt s fun as ys _ =>
    ∃ pieces, Items W as pieces ∧ More pieces ys := by
  induction b generalizing s with
  | zero => exact derives_starve
  | succ b ih =>
    unfold moreItems
    refine derives_skipBlankLines_bind fun bs t hb _ => derives_look_bind ?_
    split
    · next hcomma =>
      refine derives_take_bind (by rw [hcomma]; rintro ⟨⟩) ?_
      refine derives_skipBlankLines_bind fun bs' t' hb' ht' => ?_
      refine (hi t' ht').bind fun first u => (ih u).map fun others ys _ hothers xs hfirst => ?_
      obtain ⟨pieces, hpieces, hmore⟩ := hothers
      exact ⟨xs :: pieces, Items.cons hfirst hpieces, .cons hb hcomma hb' hmore⟩
    · exact derives_pure ⟨[], Items.nil, by rw [List.append_nil]; exact .nil hb⟩

/-- Items with commas between them, and the token that closes the list. -/
theorem listOf_derives (close : Token) (hclose : close.isFixed = true) (b : Nat) (s : State) :
    (listOf close item b).DerivesAt s fun p ys _ => ∃ pieces zs z, Items W p.1 pieces ∧
      Separated pieces zs ∧ z.token = close ∧ p.2 = z.stop ∧ ys = zs ++ [z] := by
  unfold listOf
  refine derives_skipBlankLines_bind fun bs t hb ht => derives_look_bind ?_
  split
  · refine derives_expect_bind hclose fun z _ hz => derives_pure ?_
    exact ⟨[], bs, z, Items.nil, .nil hb, hz, rfl, rfl⟩
  · refine (hi t ht).bind fun first u => (moreItems_derives hi b u).bind fun others v => ?_
    refine derives_expect_bind hclose fun z _ hz => derives_pure fun ys hothers xs hfirst => ?_
    obtain ⟨pieces, hpieces, hmore⟩ := hothers
    refine ⟨xs :: pieces, bs ++ (xs ++ ys), z, Items.cons hfirst hpieces, .cons hb hmore, hz, rfl, ?_⟩
    rw [List.append_assoc, List.append_assoc]

end Lists

end Rule

/-! ## Expressions -/

/-- The expression is written with the lexemes; behind an operator of the rank it is read whole, and
    it leaves the token after it alone. -/
def Stands (rank : Nat) (e : Expr) (xs : List Lexeme) (next : Token) : Prop :=
  ∃ head tail, Written (.expr head tail e) xs ∧ rank < head ∧ next.precedence.rank ≤ tail

/-- The same for an expression behind blank lines that is read whole at the level. -/
def StandsAt (level : Precedence) (e : Expr) (xs : List Lexeme) (next : Token) : Prop :=
  ∃ bs ys, xs = bs ++ ys ∧ Blanks bs ∧ Stands level.rank e ys next ∧
    next.precedence.rank ≤ level.rank

theorem Precedence.rank_le_tight (p : Precedence) : p.rank ≤ tight := by cases p <;> decide

/-- A closed expression stands anywhere. -/
theorem Written.stands {rank : Nat} {e : Expr} {xs : List Lexeme} {next : Token}
    (h : Written (.expr tight tight e) xs) (hrank : rank < tight) : Stands rank e xs next :=
  ⟨tight, tight, h, hrank, next.precedence.rank_le_tight⟩

theorem StandsAt.whole {e : Expr} {xs : List Lexeme} {next : Token}
    (h : StandsAt .lowest e xs next) : Written (.whole e) xs ∧ next.precedence.rank ≤ 0 := by
  obtain ⟨bs, ys, rfl, hb, ⟨head, tail, hw, hhead, -⟩, hnext⟩ := h
  exact ⟨.whole hb (.item hw hhead), hnext⟩

/-! ### Heads and tails -/

theorem Written.tail_le_head {head tail : Nat} {e : Expr} {xs : List Lexeme}
    (h : Written (.expr head tail e) xs) : tail ≤ head := by
  cases h with
  | unary => decide
  | @binary _ op _ _ _ _ _ _ _ _ _ _ hl hhead htail hx hb hr hhead' hk hk' =>
    have hright := op.rank_rightPrecedence_bounds
    omega
  | leaf | group | array | hash | cond | condElse | loop | func | call | index => exact Nat.le_refl _

/-- What leaves the tokens after a call alone is closed. -/
theorem Written.of_tight_le_tail {head tail : Nat} {e : Expr} {xs : List Lexeme}
    (h : Written (.expr head tail e) xs) (htail : tight ≤ tail) :
    Written (.expr tight tight e) xs := by
  have hhead : head ≤ tight := by
    cases h with
    | @binary _ op => exact Precedence.rank_le_tight _
    | leaf | group | array | hash | unary | cond | condElse | loop | func | call | index =>
      exact Nat.le_refl _
  have htail_le := h.tail_le_head
  obtain rfl : tail = tight := by omega
  obtain rfl : head = tight := by omega
  exact h

/-- What an operator before an operand applies to leaves the operators after it alone. -/
theorem Written.unary_le_tail {head tail : Nat} {e : Expr} {xs : List Lexeme}
    (h : Written (.expr head tail e) xs) (hhead : Precedence.unary.rank < head) :
    Precedence.unary.rank ≤ tail := by
  cases h with
  | @binary _ op =>
    have hop := op.rank_le_twelve
    have hunary : Precedence.unary.rank = 13 := rfl
    omega
  | unary => exact Nat.le_refl _
  | leaf | group | array | hash | cond | condElse | loop | func | call | index => decide

/-- A token that is an operator between operands. -/
theorem Token.eq_operator_of_isSome {t : Token} (h : t.binaryOp?.isSome = true) :
    ∃ op, t = .operator op := by
  unfold binaryOp? at h
  split at h
  · next op => exact ⟨op, rfl⟩
  · cases h

/-! ### Statements in a row -/

/-- The statement is written with the lexemes in front of all statements that start with the token
    after it. -/
def StandsFirst (st : Stmt) (xs : List Lexeme) (next : Token) : Prop :=
  ∀ ss ys, Written (.statements ss) ys → (∀ y ∈ ys.head?, y.token = next) →
    Written (.statements (st :: ss)) (xs ++ ys)

theorem Written.simple_cons {st : Stmt} {xs : List Lexeme} (h : Written (.simple st) xs) :
    ∃ x ys, xs = x :: ys ∧ x.token ≠ .kwElse := by
  cases h with
  | bind hx | ret hx => exact ⟨_, _, rfl, by rw [hx]; rintro ⟨⟩⟩
  | @exprStmt _ x xs hx he =>
    obtain ⟨_, _, hxs, hstarts⟩ := he.starts
    cases hxs
    refine ⟨x, xs, rfl, fun helse => ?_⟩
    rw [helse] at hstarts
    cases hstarts

/-- No statement starts with `else`. -/
theorem Written.head_ne_else {ss : List Stmt} {ys : List Lexeme} (h : Written (.statements ss) ys) :
    ∀ y ∈ ys.head?, y.token ≠ .kwElse := by
  intro y hy
  cases h with
  | nil => cases hy
  | semicolon hx | blank hx =>
    cases hy
    rw [hx]
    rintro ⟨⟩
  | blockStmt hb =>
    obtain ⟨x, xs, rfl, hx⟩ := hb.startsBlock
    cases hy
    rw [hx]
    rintro ⟨⟩
  | ended hs | unended hs =>
    obtain ⟨x, xs, rfl, hx⟩ := hs.simple_cons
    cases hy
    exact hx

/-- A simple statement that no semicolon ends. -/
theorem Written.standsFirst {st : Stmt} {xs : List Lexeme} {next : Token}
    (h : Written (.simple st) xs) (hnext : next.precedence.rank ≤ 0) (hsemi : next ≠ .semicolon) :
    StandsFirst st xs next := by
  intro ss ys hys hhead
  refine .unended h (fun y hy => ⟨?_, hys.head_ne_else y hy, by rw [hhead y hy]; exact hsemi⟩) hys
  rw [hhead y hy]
  cases hp : next.precedence with
  | lowest => rfl
  | _ =>
    rw [hp] at hnext
    exact absurd hnext (by decide)

namespace Grammar

open Rule

section Parts

variable {expr : ExprRule} {block : Rule Block} {s : State}

theorem name_derives : name.DerivesAt s fun id xs _ => ∃ w : Lexeme, xs = [w] ∧ w.name? = some id := by
  refine derives_look_bind ?_
  split
  · next text htext =>
    refine derives_take_bind (by rw [htext]; rintro ⟨⟩) (derives_pure ⟨s.current, rfl, ?_⟩)
    unfold Lexeme.name?
    rw [htext]
  · exact derives_fail _ _

/-- A rule that takes one lexeme and makes a leaf of it. -/
theorem leaf_derives {f : Lexeme → Rule Expr} (hne : s.current.token ≠ .eof)
    (h : ∀ t, (f s.current).DerivesAt t fun e ys _ => ys = [] ∧ s.current.leaf? = some e) :
    (take >>= f).DerivesAt s fun e xs _ => Written (.expr tight tight e) xs := by
  refine derives_take_bind hne ((h s.step).mono fun e ys _ he => ?_)
  obtain ⟨rfl, he⟩ := he
  exact .leaf he

theorem integer_derives {text : String} (hx : s.current.token = .int text) :
    integer.DerivesAt s fun e xs _ => Written (.expr tight tight e) xs := by
  refine leaf_derives (by rw [hx]; rintro ⟨⟩) fun t => ?_
  have hliteral : s.current.token.literal = text := by rw [hx]; rfl
  rw [hliteral]
  split
  · next value hvalue =>
    refine derives_pure ⟨rfl, ?_⟩
    unfold Lexeme.leaf?
    rw [hx]
    exact Option.map_eq_some_iff.mpr ⟨value, hvalue, rfl⟩
  · exact derives_fail _ _

theorem float_derives {text : String} (hx : s.current.token = .float text) :
    float.DerivesAt s fun e xs _ => Written (.expr tight tight e) xs := by
  refine leaf_derives (by rw [hx]; rintro ⟨⟩) fun t => ?_
  have hliteral : s.current.token.literal = text := by rw [hx]; rfl
  rw [hliteral]
  split
  · next value hvalue =>
    refine derives_pure ⟨rfl, ?_⟩
    unfold Lexeme.leaf?
    rw [hx]
    exact Option.map_eq_some_iff.mpr ⟨value, hvalue, rfl⟩
  · exact derives_fail _ _

theorem boolean_derives (value : Bool)
    (hx : s.current.token = if value then .kwTrue else .kwFalse) :
    boolean.DerivesAt s fun e xs _ => Written (.expr tight tight e) xs := by
  refine leaf_derives (by rw [hx]; cases value <;> rintro ⟨⟩) fun t => derives_pure ⟨rfl, ?_⟩
  unfold Lexeme.leaf?
  rw [hx]
  cases value <;> rfl

theorem string_derives {value : String} (hx : s.current.token = .str value) :
    string.DerivesAt s fun e xs _ => Written (.expr tight tight e) xs := by
  refine leaf_derives (by rw [hx]; rintro ⟨⟩) fun t => derives_pure ⟨rfl, ?_⟩
  unfold Lexeme.leaf?
  rw [hx]
  rfl

/-! ### What expressions are made of -/

variable (he : ∀ level s, level.rank < tight → (expr level).DerivesAt s (StandsAt level))
  (hb : ∀ s, block.DerivesAt s fun b xs _ => Written (.block b) xs)

include he

theorem whole_derives (s : State) : (expr .lowest).DerivesAt s fun e xs next =>
    Written (.whole e) xs ∧ next.precedence.rank ≤ 0 :=
  (he .lowest s (by decide)).mono fun _ _ _ h => h.whole

/-- An expression that starts with the lexeme in front. -/
theorem item_derives (s : State) (hs : NotBlank s.current.token) :
    (expr .lowest).DerivesAt s fun e xs next =>
      Written (.item e) xs ∧ next.precedence.rank ≤ 0 := by
  intro e t ht hnone
  obtain ⟨xs, hst, bs, ys, hxs, hblank, ⟨head, tail, hw, hhead, -⟩, hnext⟩ :=
    he .lowest s (by decide) e t ht hnone
  cases bs with
  | nil =>
    rw [List.nil_append] at hxs
    subst hxs
    exact ⟨xs, hst, .item hw hhead, hnext⟩
  | cons x bs =>
    rw [hxs] at hst
    exact absurd (hblank x List.mem_cons_self) (by rw [← hst.current_eq]; exact hs)

theorem array_derives (b : Nat) : (array expr b).DerivesAt s fun e xs _ =>
    Written (.expr tight tight e) xs := by
  refine derives_expect_bind rfl fun x t hx => ?_
  have hitems := listOf_derives (W := fun e xs => Written (.item e) xs)
    (fun s hs => (item_derives he s hs).mono fun _ _ _ h => h.1) .rightBracket rfl b t
  refine hitems.map fun p ys _ h => ?_
  obtain ⟨_, zs, z, ⟨items, hitems, hfst, rfl⟩, hsep, hz, hstop, rfl⟩ := h
  rw [← hfst, hstop]
  exact .array hx hitems hsep hz

theorem entry_derives (s : State) (hs : NotBlank s.current.token) :
    (entry expr).DerivesAt s fun p xs _ => Written (.entry p) xs := by
  refine (item_derives he s hs).bind fun key t => ?_
  refine derives_skipBlankLines_bind fun bs u hblank _ => derives_expect_bind rfl fun c v hc => ?_
  refine (whole_derives he v).map fun value ys _ hvalue xs hkey => ?_
  exact .entry hkey.1 hblank hc hvalue.1

theorem hash_derives (b : Nat) : (hash expr b).DerivesAt s fun e xs _ =>
    Written (.expr tight tight e) xs := by
  refine derives_expect_bind rfl fun x t hx => ?_
  refine (listOf_derives (entry_derives he) .rightBrace rfl b t).map fun p ys _ h => ?_
  obtain ⟨_, zs, z, ⟨items, hitems, hfst, rfl⟩, hsep, hz, hstop, rfl⟩ := h
  rw [← hfst, hstop]
  exact .hash hx hitems hsep hz

theorem group_derives (hx : s.current.token = .leftParen) :
    (group expr).DerivesAt s fun e xs _ => Written (.expr tight tight e) xs := by
  refine derives_take_bind (by rw [hx]; rintro ⟨⟩) ?_
  refine (whole_derives he s.step).bind fun inner t => ?_
  refine derives_skipBlankLines_bind fun bs u hblank _ => derives_expect_bind rfl fun z v hz => ?_
  exact derives_pure fun xs hinner => .group hx hinner.1 hblank hz

theorem unary_derives (op : UnaryOp) (hx : s.current.token.unaryOp? = some op) :
    (unary expr).DerivesAt s fun e xs next => ∀ rank, rank < tight → Stands rank e xs next := by
  have hne : s.current.token ≠ .eof := by
    intro heof
    rw [heof] at hx
    cases hx
  refine derives_take_bind hne ?_
  rw [hx]
  refine (he .unary s.step (by decide)).map fun operand xs next h rank hrank => ?_
  obtain ⟨bs, ys, rfl, hblank, ⟨head, tail, hw, hhead, -⟩, hnext⟩ := h
  exact ⟨tight, _, .unary hx hblank hw hhead (hw.unary_le_tail hhead), hrank, hnext⟩

include hb

theorem cond_derives : (cond expr block).DerivesAt s fun e xs _ =>
    Written (.expr tight tight e) xs := by
  refine derives_expect_bind rfl fun x t hx => (whole_derives he t).bind fun c u => ?_
  refine (hb u).bind fun body v => derives_look_bind ?_
  split
  · next helse =>
    refine derives_take_bind (by rw [helse]; rintro ⟨⟩) ?_
    refine (hb v.step).map fun body' zs _ hbody' ys hbody xs hc => ?_
    exact .condElse hx hc.1 hbody helse hbody'
  · refine derives_pure fun ys hbody xs hc => ?_
    rw [List.append_nil]
    exact .cond hx hc.1 hbody

theorem loop_derives : (loop expr block).DerivesAt s fun e xs _ =>
    Written (.expr tight tight e) xs := by
  refine derives_expect_bind rfl fun x t hx => (whole_derives he t).bind fun c u => ?_
  exact (hb u).map fun body ys _ hbody xs hc => .loop hx hc.1 hbody

omit he in
theorem func_derives (b : Nat) : (func block b).DerivesAt s fun e xs _ =>
    Written (.expr tight tight e) xs := by
  refine derives_expect_bind rfl fun x t hx => derives_expect_bind rfl fun y u hy => ?_
  have hnames := listOf_derives (fun s _ => name_derives (s := s)) .rightParen rfl b u
  refine hnames.bind fun p v => (hb v).map fun body zs _ hbody ys h => ?_
  obtain ⟨_, ws, z, ⟨names, hnames, hfst, rfl⟩, hsep, hz, -, rfl⟩ := h
  rw [← hfst]
  exact .func hx hy hnames hsep hz hbody

/-- What an expression starts with. -/
theorem operand_derives (b : Nat) : (operand expr block b).DerivesAt s fun e xs next =>
    ∀ rank, rank < tight → Stands rank e xs next := by
  have hclosed : ∀ {r : Rule Expr}, (r.DerivesAt s fun e xs _ => Written (.expr tight tight e) xs) →
      r.DerivesAt s fun e xs next => ∀ rank, rank < tight → Stands rank e xs next :=
    fun h => h.mono fun _ _ _ hw _ hrank => hw.stands hrank
  refine derives_look_bind ?_
  split
  case h_1 hx =>
    refine hclosed (name_derives.map fun id xs _ h => ?_)
    obtain ⟨w, rfl, hw⟩ := h
    refine .leaf ?_
    unfold Lexeme.name? at hw
    unfold Lexeme.leaf?
    split at hw
    · next text htext =>
      cases hw
      rw [htext]
    · cases hw
  case h_2 hx => exact hclosed (integer_derives hx)
  case h_3 hx => exact hclosed (float_derives hx)
  case h_4 hx => exact hclosed (boolean_derives true hx)
  case h_5 hx => exact hclosed (boolean_derives false hx)
  case h_6 hx => exact hclosed (string_derives hx)
  case h_7 hx => exact unary_derives he .not (by rw [hx]; rfl)
  case h_8 hx => exact unary_derives he .neg (by rw [hx]; rfl)
  case h_9 => exact hclosed (array_derives he b)
  case h_10 => exact hclosed (hash_derives he b)
  case h_11 => exact hclosed (cond_derives he hb)
  case h_12 => exact hclosed (loop_derives he hb)
  case h_13 => exact hclosed (func_derives hb b)
  case h_14 hx => exact hclosed (group_derives he hx)
  case h_15 => exact derives_fail _ _

omit hb

/-- The token in front makes the expression before it the left part of a longer one. -/
theorem continuation_derives (b : Nat) (level : Precedence) (left : Expr)
    (hlevel : level.rank < s.current.token.precedence.rank) :
    (continuation expr b left).DerivesAt s fun e ys next =>
      ∀ xs, Stands level.rank left xs s.current.token → Stands level.rank e (xs ++ ys) next := by
  refine derives_look_bind ?_
  split
  · next hx =>
    refine derives_expect_bind rfl fun x t hparen => ?_
    have hitems := listOf_derives (W := fun e xs => Written (.item e) xs)
      (fun s hs => (item_derives he s hs).mono fun _ _ _ h => h.1) .rightParen rfl b t
    refine hitems.map fun p ys _ h xs hleft => ?_
    obtain ⟨_, zs, z, ⟨items, hitems, hfst, rfl⟩, hsep, hz, hstop, rfl⟩ := h
    obtain ⟨head, tail, hw, -, htail⟩ := hleft
    rw [hx] at hlevel htail
    rw [← hfst, hstop]
    exact (Written.call (hw.of_tight_le_tail htail) hparen hitems hsep hz).stands hlevel
  · next hx =>
    refine derives_expect_bind rfl fun x t hbracket => (whole_derives he t).bind fun position u => ?_
    refine derives_skipBlankLines_bind fun bs v hblank _ => derives_expect_bind rfl fun z w hz => ?_
    refine derives_pure fun ys hposition xs hleft => ?_
    obtain ⟨head, tail, hw, -, htail⟩ := hleft
    rw [hx] at hlevel htail
    exact (Written.index (hw.of_tight_le_tail htail) hbracket hposition.1 hblank hz).stands hlevel
  · next hparen hbracket =>
    have hbinds : Precedence.lowest.rank < s.current.token.precedence.rank :=
      Nat.lt_of_le_of_lt (Nat.zero_le _) hlevel
    have hop := (Token.binaryOp?_isSome_of_binds hbinds).resolve_left hparen |>.resolve_left hbracket
    obtain ⟨op, hop⟩ := Token.eq_operator_of_isSome hop
    have hprecedence : s.current.token.precedence = op.precedence := by rw [hop]; rfl
    refine derives_take_bind (by rw [hop]; rintro ⟨⟩) ?_
    have hbinary : s.current.token.binaryOp? = some op := by rw [hop]; rfl
    rw [hbinary]
    have hright := op.rank_rightPrecedence_bounds
    have hrank := op.rank_le_twelve
    refine (he op.rightPrecedence s.step ?_).map fun right ys next h xs hleft => ?_
    · have htight : tight = 14 := rfl
      omega
    obtain ⟨bs, zs, rfl, hblank, ⟨head', tail', hw', hhead', htail'⟩, hnext⟩ := h
    obtain ⟨head, tail, hw, -, htail⟩ := hleft
    rw [hprecedence] at htail hlevel
    have hhead := hw.tail_le_head
    refine ⟨_, min op.rightPrecedence.rank tail', ?_, hlevel, ?_⟩
    · exact .binary hw (by omega) htail hop hblank hw' hhead' (Nat.min_le_left _ _)
        (Nat.min_le_right _ _)
    · exact Nat.le_min.mpr ⟨hnext, htail'⟩

/-! ### Statements -/

omit he in
/-- The end of a simple statement, with or without a semicolon. -/
theorem simpleEnd_derives {st : Stmt} : (do
    skipOptional .semicolon
    pure st : Rule Stmt).DerivesAt s fun st' ys next =>
      ∀ xs, Written (.simple st) xs → s.current.token.precedence.rank ≤ 0 →
        StandsFirst st' (xs ++ ys) next := by
  by_cases hsemi : s.currentIs .semicolon = true
  · have htoken : s.current.token = .semicolon := State.token_of_currentIs rfl hsemi
    refine derivesAt_of_through (State.through_step (by rw [htoken]; rintro ⟨⟩)) ?_
      (show _ = (pure st : Rule Stmt) s.step by rw [skipOptional_bind, if_pos hsemi]; rfl)
    refine derives_pure fun xs hxs _ ss ys hys _ => ?_
    rw [List.append_nil, List.append_assoc]
    exact .ended hxs htoken hys
  · refine derivesAt_of_through (State.through_nil s) ?_
      (show _ = (pure st : Rule Stmt) s by rw [skipOptional_bind, if_neg hsemi]; rfl)
    refine derives_pure fun xs hxs hs => ?_
    rw [List.append_nil, List.append_nil]
    refine hxs.standsFirst hs fun hnext => hsemi ?_
    unfold State.currentIs
    rw [hnext]
    rfl

theorem letStatement_derives : (letStatement expr).DerivesAt s StandsFirst := by
  refine derives_expect_bind rfl fun x t hx => name_derives.bind fun id u => ?_
  refine derives_expect_bind rfl fun y v hy => (whole_derives he v).bind fun value w => ?_
  refine simpleEnd_derives.mono fun st ys next hend xs hvalue ns hname => ?_
  obtain ⟨n, rfl, hn⟩ := hname
  exact hend _ (.bind hx hn hy hvalue.1) hvalue.2

theorem returnStatement_derives : (returnStatement expr).DerivesAt s StandsFirst := by
  refine derives_expect_bind rfl fun x t hx => (whole_derives he t).bind fun value u => ?_
  refine simpleEnd_derives.mono fun st ys next hend xs hvalue => ?_
  exact hend _ (.ret hx hvalue.1) hvalue.2

theorem expressionStatement_derives (hs : NotBlank s.current.token)
    (hbrace : s.current.token ≠ .leftBrace) :
    (expressionStatement expr).DerivesAt s StandsFirst := by
  have hfirst : (expr .lowest).DerivesAt s fun e xs next =>
      Written (.simple (.expr e)) xs ∧ next.precedence.rank ≤ 0 := by
    intro e t ht hnone
    obtain ⟨xs, hst, hw, hnext⟩ := item_derives he s hs e t ht hnone
    obtain ⟨x, ys, rfl, -⟩ := hw.starts
    exact ⟨_, hst, .exprStmt (by rw [← hst.current_eq]; exact hbrace) hw, hnext⟩
  refine hfirst.bind fun value t => simpleEnd_derives.mono fun st ys next hend xs hvalue => ?_
  exact hend _ hvalue.1 hvalue.2

include hb

theorem statement_derives : (statement expr block).DerivesAt s StandsFirst := by
  refine derives_look_bind ?_
  split
  · next hx =>
    refine derives_take_bind (by rw [hx]; rintro ⟨⟩) (derives_pure fun ss ys hys _ => ?_)
    exact .blank hx hys
  · exact letStatement_derives he
  · exact returnStatement_derives he
  · refine (hb s).map fun body xs next hbody ss ys hys _ => ?_
    exact .blockStmt hbody hys
  · next hblank _ _ hbrace => exact expressionStatement_derives he hblank hbrace

end Parts

/-! ### The recursive rules -/

/-- The rules with budget `b` take what their results are written with. -/
structure RulesDerive (b : Nat) : Prop where
  expression : ∀ level s, level.rank < tight → (expression b level).DerivesAt s (StandsAt level)
  operators : ∀ level left s, (operators b level left).DerivesAt s fun e ys next =>
    ∀ xs, Stands level.rank left xs s.current.token →
      Stands level.rank e (xs ++ ys) next ∧ next.precedence.rank ≤ level.rank
  block : ∀ s, (block b).DerivesAt s fun body xs _ => Written (.block body) xs
  statements : ∀ inBlock s, (statements b inBlock).DerivesAt s fun ss xs next =>
    Written (.statements ss) xs ∧ endsStatements inBlock next = true

theorem expression_succ_derives {b : Nat} (h : RulesDerive b) (level : Precedence) (s : State)
    (hlevel : level.rank < tight) : (expression (b + 1) level).DerivesAt s (StandsAt level) := by
  unfold expression
  refine derives_skipBlankLines_bind fun bs t hblank _ => ?_
  refine (operand_derives h.expression h.block b).bind fun left u => ?_
  refine (h.operators level left u).mono fun e ys next hops xs hleft => ?_
  obtain ⟨hstands, hnext⟩ := hops xs (hleft level.rank hlevel)
  exact ⟨bs, xs ++ ys, rfl, hblank, hstands, hnext⟩

theorem operators_succ_derives {b : Nat} (h : RulesDerive b) (level : Precedence) (left : Expr)
    (s : State) : (operators (b + 1) level left).DerivesAt s fun e ys next =>
      ∀ xs, Stands level.rank left xs s.current.token →
        Stands level.rank e (xs ++ ys) next ∧ next.precedence.rank ≤ level.rank := by
  unfold operators
  refine derives_look_bind ?_
  split
  · next hlevel =>
    refine (continuation_derives h.expression b level left hlevel).bind fun wider t => ?_
    refine (h.operators level wider t).mono fun e zs next hops ys hwider xs hleft => ?_
    rw [← List.append_assoc]
    exact hops (xs ++ ys) (hwider xs hleft)
  · next hlevel =>
    refine derives_pure fun xs hleft => ?_
    rw [List.append_nil]
    exact ⟨hleft, Nat.le_of_not_lt hlevel⟩

theorem block_succ_derives {b : Nat} (h : RulesDerive b) (s : State) :
    (block (b + 1)).DerivesAt s fun body xs _ => Written (.block body) xs := by
  unfold block
  refine derives_expect_bind rfl fun x t hx => (h.statements true t).bind fun ss u => ?_
  refine derives_expect_bind rfl fun z v hz => derives_pure fun xs hss => ?_
  exact .block hx hss.1 hz

theorem statements_succ_derives {b : Nat} (h : RulesDerive b) (inBlock : Bool) (s : State) :
    (statements (b + 1) inBlock).DerivesAt s fun ss xs next =>
      Written (.statements ss) xs ∧ endsStatements inBlock next = true := by
  intro ss u hu hnone
  unfold statements at hu
  split at hu
  · next hends =>
    cases hu
    exact ⟨[], State.through_nil s, .nil, hends⟩
  split at hu
  · next hsemi =>
    obtain ⟨xs, hstep, hxs, hends⟩ := h.statements inBlock s.step ss u hu hnone
    have htake := State.through_step (s := s) (by rw [hsemi]; rintro ⟨⟩)
    exact ⟨_, htake.append hstep, .semicolon hsemi hxs, hends⟩
  · cases hst : statement (expression b) (Grammar.block b) s with
    | ok first t =>
      rw [hst] at hu
      obtain ⟨others, v, hothers, hend⟩ := bind_eq_ok.mp hu
      cases hend
      obtain ⟨ys, htu, hys, hends⟩ := h.statements inBlock t others u hothers hnone
      obtain ⟨xs, hxs, hfirst⟩ :=
        statement_derives h.expression h.block first t hst (htu.errors ▸ hnone)
      refine ⟨xs ++ ys, hxs.append htu, hfirst others ys hys fun y hy => ?_, hends⟩
      cases ys with
      | nil => cases hy
      | cons z zs =>
        cases hy
        rw [htu.current_eq]
    | error e t =>
      -- a fault that is noted stays noted
      rw [hst] at hu
      obtain ⟨xs, hxs, -⟩ := h.statements inBlock _ ss u hu hnone
      have hmem : e ∈ ((t.note e).recover inBlock).errors :=
        List.mem_append_right t.errors List.mem_cons_self
      rw [← hxs.errors, hnone] at hmem
      cases hmem
    | starved =>
      rw [hst] at hu
      cases hu

theorem rules_derive (b : Nat) : RulesDerive b := by
  induction b with
  | zero =>
    exact ⟨fun _ _ _ => derives_starve, fun _ _ _ => derives_starve, fun _ => derives_starve,
      fun _ _ => derives_starve⟩
  | succ b ih =>
    exact ⟨expression_succ_derives ih, operators_succ_derives ih, block_succ_derives ih,
      statements_succ_derives ih⟩

end Grammar

/-! ## Whole lists of lexemes -/

/-- What is left of a list of lexemes behind the program: nothing, or the end of the text and whatever
    stands after it. -/
def EndsText (zs : List Lexeme) : Prop := ∀ z ∈ zs.head?, z.token = .eof

theorem EndsText.current {zs : List Lexeme} (h : EndsText zs) (stop : Nat)
    (errors : List SyntaxError) : (State.mk zs stop errors).current.token = .eof := by
  cases zs with
  | nil => rfl
  | cons z zs => exact h z rfl

/-- What is read without a fault is written. -/
theorem written_of_parseLexemes {xs : List Lexeme} (h : (parseLexemes xs).errors = []) :
    ∃ ys zs, xs = ys ++ zs ∧ EndsText zs ∧
      Written (.statements (parseLexemes xs).program.statements) ys := by
  obtain ⟨ss, t, hread, hends⟩ := Grammar.readStatements_ok false (.ofLexemes xs)
  rw [Grammar.parseLexemes_eq hread] at h ⊢
  obtain ⟨ys, hthrough, hys, -⟩ := (Grammar.rules_derive _).statements false _ ss t hread h
  exact ⟨ys, t.rest, hthrough.rest, State.head_eof_of_endsStatements hends, hys⟩

/-- What is written is read without a fault, whatever stands behind the end of the text. -/
theorem Written.parseLexemes_append {ss : List Stmt} {ys zs : List Lexeme}
    (h : Written (.statements ss) ys) (hzs : EndsText zs) :
    (parseLexemes (ys ++ zs)).program.statements = ss ∧ (parseLexemes (ys ++ zs)).errors = [] := by
  have hread := h.read (ys ++ zs).length false _ _ (Nat.le_refl _) (State.through_mk ys zs 0 [])
    (by rw [hzs.current]; rfl)
  rw [Grammar.parseLexemes_eq hread]
  exact ⟨rfl, rfl⟩

end Scriptlet
