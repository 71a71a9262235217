import Scriptlet.Proofs.Grammar.Progress

/-!
# `Proofs.Grammar.Settled` — the grammar without budgets

A larger budget never changes a reply that a smaller one has given, and `Proofs.Grammar.Progress`
shows which budget always gives one. So each recursive rule has a settled form that carries no
budget, and the settled rules satisfy the equations that the rules of the grammar state.

## Contents
- `Rule.Below`: the second rule gives the first one's replies, and perhaps more of them. Every rule
  keeps this order in its parts.
- `readExpression`, `readOperators`, `readBlock`, `readStatements`: the settled rules.
- `readExpression_apply`, `readOperators_apply`, `readBlock_apply`, `readStatements_apply`: their
  equations.
- `readExpression_of_le` and the like: any budget large enough gives the settled reply.
-/

namespace Scriptlet

/-! ## More budget, more replies -/

/-- Where the first rule gives a reply, the second gives the same one. -/
def Rule.Below {α : Type} (r r' : Rule α) : Prop := ∀ s, r s = .starved ∨ r s = r' s

namespace Rule

variable {α β : Type}

theorem Below.refl (r : Rule α) : r.Below r := fun _ => Or.inr rfl

/-- A reply that is not starved stays. -/
theorem Below.eq {r r' : Rule α} (h : r.Below r') {s : State} (hs : r s ≠ .starved) :
    r' s = r s :=
  ((h s).resolve_left hs).symm

/-- Rules that grow with their budget are below their settled form. -/
theorem below_of_settled {r : Nat → Rule α} {budget : State → Nat}
    (hr : ∀ {b b' : Nat}, b ≤ b' → (r b).Below (r b'))
    (hs : ∀ s, r (budget s) s ≠ .starved) {b : Nat} : (r b).Below fun s => r (budget s) s := by
  intro s
  rcases Nat.le_total b (budget s) with h | h
  · exact hr h s
  · exact Or.inr ((hr h).eq (hs s))

theorem below_starve (r : Rule α) : (starve : Rule α).Below r := fun _ => Or.inl rfl

theorem Below.bind {r r' : Rule α} {f f' : α → Rule β} (h : r.Below r')
    (hf : ∀ a, (f a).Below (f' a)) : (r >>= f).Below (r' >>= f') := by
  intro s
  rw [bind_apply, bind_apply]
  rcases h s with hs | hs
  · rw [hs]
    exact Or.inl rfl
  · rw [← hs]
    cases r s with
    | ok a t => exact hf a t
    | error e t => exact Or.inr rfl
    | starved => exact Or.inl rfl

/-- A rule that both goes first and stays the same leaves the order to what follows it. -/
theorem below_bind {r : Rule α} {f f' : α → Rule β} (hf : ∀ a, (f a).Below (f' a)) :
    (r >>= f).Below (r >>= f') :=
  (Below.refl r).bind hf

theorem moreItems_below {item item' : Rule α} {b b' : Nat} (hi : item.Below item') (hb : b ≤ b') :
    (moreItems item b).Below (moreItems item' b') := by
  induction b generalizing b' with
  | zero => exact below_starve _
  | succ b ih =>
    obtain ⟨c, rfl⟩ : ∃ c, b' = c + 1 := ⟨b' - 1, by omega⟩
    unfold moreItems
    refine below_bind fun _ => below_bind fun x => ?_
    split
    · refine below_bind fun _ => below_bind fun _ => hi.bind fun first => ?_
      exact (ih (by omega)).bind fun others => Below.refl _
    · exact Below.refl _

theorem listOf_below {close : Token} {item item' : Rule α} {b b' : Nat} (hi : item.Below item')
    (hb : b ≤ b') : (listOf close item b).Below (listOf close item' b') := by
  unfold listOf
  refine below_bind fun _ => below_bind fun x => ?_
  split
  · exact Below.refl _
  · exact hi.bind fun first => (moreItems_below hi hb).bind fun others => Below.refl _

end Rule

namespace Grammar

open Rule

section Parts

variable {expr expr' : ExprRule} {block block' : Rule Block} {b b' : Nat}

theorem array_below (he : ∀ l, (expr l).Below (expr' l)) (hb : b ≤ b') :
    (array expr b).Below (array expr' b') :=
  below_bind fun _ => (listOf_below (he _) hb).bind fun _ => Below.refl _

theorem entry_below (he : ∀ l, (expr l).Below (expr' l)) : (entry expr).Below (entry expr') :=
  (he _).bind fun _ => below_bind fun _ => below_bind fun _ => (he _).bind fun _ => Below.refl _

theorem hash_below (he : ∀ l, (expr l).Below (expr' l)) (hb : b ≤ b') :
    (hash expr b).Below (hash expr' b') :=
  below_bind fun _ => (listOf_below (entry_below he) hb).bind fun _ => Below.refl _

theorem unary_below (he : ∀ l, (expr l).Below (expr' l)) : (unary expr).Below (unary expr') := by
  refine below_bind fun x => ?_
  split
  · exact (he _).bind fun _ => Below.refl _
  · exact Below.refl _

theorem cond_below (he : ∀ l, (expr l).Below (expr' l)) (hk : block.Below block') :
    (cond expr block).Below (cond expr' block') := by
  refine below_bind fun _ => (he _).bind fun _ => hk.bind fun _ => below_bind fun x => ?_
  split
  · exact below_bind fun _ => hk.bind fun _ => Below.refl _
  · exact Below.refl _

theorem loop_below (he : ∀ l, (expr l).Below (expr' l)) (hk : block.Below block') :
    (loop expr block).Below (loop expr' block') :=
  below_bind fun _ => (he _).bind fun _ => hk.bind fun _ => Below.refl _

theorem func_below (hk : block.Below block') (hb : b ≤ b') :
    (func block b).Below (func block' b') :=
  below_bind fun _ => below_bind fun _ => (listOf_below (Below.refl _) hb).bind fun _ =>
    hk.bind fun _ => Below.refl _

theorem group_below (he : ∀ l, (expr l).Below (expr' l)) : (group expr).Below (group expr') :=
  below_bind fun _ => (he _).bind fun _ => Below.refl _

theorem operand_below (he : ∀ l, (expr l).Below (expr' l)) (hk : block.Below block')
    (hb : b ≤ b') : (operand expr block b).Below (operand expr' block' b') := by
  refine below_bind fun x => ?_
  split
  case h_7 | h_8 => exact unary_below he
  case h_9 => exact array_below he hb
  case h_10 => exact hash_below he hb
  case h_11 => exact cond_below he hk
  case h_12 => exact loop_below he hk
  case h_13 => exact func_below hk hb
  case h_14 => exact group_below he
  all_goals exact Below.refl _

theorem continuation_below (he : ∀ l, (expr l).Below (expr' l)) (hb : b ≤ b') (left : Expr) :
    (continuation expr b left).Below (continuation expr' b' left) := by
  refine below_bind fun x => ?_
  split
  · exact below_bind fun _ => (listOf_below (he _) hb).bind fun _ => Below.refl _
  · exact below_bind fun _ => (he _).bind fun _ => Below.refl _
  · refine below_bind fun x => ?_
    split
    · exact (he _).bind fun _ => Below.refl _
    · exact Below.refl _

theorem statement_below (he : ∀ l, (expr l).Below (expr' l)) (hk : block.Below block') :
    (statement expr block).Below (statement expr' block') := by
  refine below_bind fun x => ?_
  split
  · exact Below.refl _
  · exact below_bind fun _ => below_bind fun _ => below_bind fun _ => (he _).bind fun _ =>
      Below.refl _
  · exact below_bind fun _ => (he _).bind fun _ => Below.refl _
  · exact hk.bind fun _ => Below.refl _
  · exact (he _).bind fun _ => Below.refl _

end Parts

/-- The rules with budget `b` are below those with budget `b'`. -/
structure RulesBelow (b b' : Nat) : Prop where
  expression : ∀ level, (expression b level).Below (expression b' level)
  operators : ∀ level left, (operators b level left).Below (operators b' level left)
  block : (block b).Below (block b')
  statements : ∀ inBlock, (statements b inBlock).Below (statements b' inBlock)

theorem statements_succ_below {b b' : Nat} (h : RulesBelow b b') (inBlock : Bool) :
    (statements (b + 1) inBlock).Below (statements (b' + 1) inBlock) := by
  intro s
  unfold statements
  split
  · exact Or.inr rfl
  · split
    · exact h.statements inBlock s.step
    · rcases statement_below h.expression h.block s with hs | hs
      · rw [hs]
        exact Or.inl rfl
      · rw [← hs]
        cases statement (expression b) (Grammar.block b) s with
        | ok first t =>
          exact (h.statements inBlock).bind (fun _ => Below.refl _) t
        | error e t => exact h.statements inBlock _
        | starved => exact Or.inl rfl

/-- More budget never changes a reply. -/
theorem rules_below {b b' : Nat} (hb : b ≤ b') : RulesBelow b b' := by
  induction b generalizing b' with
  | zero => exact ⟨fun _ => below_starve _, fun _ _ => below_starve _, below_starve _,
      fun _ => below_starve _⟩
  | succ b ih =>
    obtain ⟨c, rfl⟩ : ∃ c, b' = c + 1 := ⟨b' - 1, by omega⟩
    have h : RulesBelow b c := ih (by omega)
    refine ⟨fun level => ?_, fun level left => ?_, ?_, statements_succ_below h⟩
    · unfold expression
      refine below_bind fun _ => ?_
      exact (operand_below h.expression h.block (by omega)).bind fun left => h.operators level left
    · unfold operators
      refine below_bind fun x => ?_
      split
      · exact (continuation_below h.expression (by omega) left).bind fun wider =>
          h.operators level wider
      · exact Below.refl _
    · unfold Grammar.block
      exact below_bind fun _ => (h.statements true).bind fun _ => Below.refl _

/-! ## The settled rules -/

/-- An expression whose operators bind more tightly than a level. -/
def readExpression : ExprRule := fun level s => expression (budgetFor s.rest.length) level s

/-- The operators after an expression. -/
def readOperators (level : Precedence) (left : Expr) : Rule Expr := fun s =>
  operators (budgetFor s.rest.length) level left s

/-- Statements between braces. -/
def readBlock : Rule Block := fun s => block (budgetFor s.rest.length) s

/-- Statements up to the end of the text or of the block. -/
def readStatements (inBlock : Bool) : Rule (List Stmt) := fun s =>
  statements (budgetFor s.rest.length) inBlock s

/-! ### They come to an end -/

theorem three_mul_le_budgetFor (n : Nat) : 3 * (n + 1) ≤ budgetFor n := by
  unfold budgetFor
  omega

theorem readExpression_total (n : Nat) (level : Precedence) : (readExpression level).Total n 1 := by
  intro s _
  have h := (enough (budgetFor s.rest.length) (s.rest.length + 1)).expression
    (Nat.le_add_right_of_le (three_mul_le_budgetFor _)) level s (Nat.lt_succ_self _)
  unfold LeadsAt readExpression
  exact h

theorem readOperators_total (n : Nat) (level : Precedence) (left : Expr) :
    (readOperators level left).Total n 0 := by
  intro s _
  have h := (enough (budgetFor s.rest.length) (s.rest.length + 1)).operators
    (Nat.le_add_right_of_le (three_mul_le_budgetFor _)) level left s (Nat.lt_succ_self _)
  unfold LeadsAt readOperators
  exact h

theorem readBlock_total (n : Nat) : readBlock.Total n 1 := by
  intro s _
  have h := (enough (budgetFor s.rest.length) (s.rest.length + 1)).block
    (Nat.le_add_right_of_le (three_mul_le_budgetFor _)) s (Nat.lt_succ_self _)
  unfold LeadsAt readBlock
  exact h

theorem readStatements_total (n : Nat) (inBlock : Bool) : (readStatements inBlock).Total n 0 := by
  intro s _
  have h := (enough (budgetFor s.rest.length) (s.rest.length + 1)).statements
    (three_mul_le_budgetFor _) inBlock s (Nat.lt_succ_self _)
  unfold LeadsAt readStatements
  exact h

/-! ### They give every reply that some budget gives -/

theorem expression_below (b : Nat) (level : Precedence) :
    (expression b level).Below (readExpression level) :=
  below_of_settled (fun h => (rules_below h).expression level)
    fun s => Total.ne_starved (fun n => readExpression_total n level) s

theorem operators_below (b : Nat) (level : Precedence) (left : Expr) :
    (operators b level left).Below (readOperators level left) :=
  below_of_settled (fun h => (rules_below h).operators level left)
    fun s => Total.ne_starved (fun n => readOperators_total n level left) s

theorem block_below (b : Nat) : (block b).Below readBlock :=
  below_of_settled (fun h => (rules_below h).block) fun s => Total.ne_starved readBlock_total s

theorem statements_below (b : Nat) (inBlock : Bool) :
    (statements b inBlock).Below (readStatements inBlock) :=
  below_of_settled (fun h => (rules_below h).statements inBlock)
    fun s => Total.ne_starved (fun n => readStatements_total n inBlock) s

/-- Any budget that is large enough gives the settled reply. -/
theorem expression_of_le {b : Nat} {s : State} (hb : budgetFor s.rest.length ≤ b)
    (level : Precedence) : expression b level s = readExpression level s :=
  ((rules_below hb).expression level).eq (Total.ne_starved (fun n => readExpression_total n level) s)

/-- Any budget that is large enough gives the settled reply. -/
theorem block_of_le {b : Nat} {s : State} (hb : budgetFor s.rest.length ≤ b) :
    block b s = readBlock s :=
  (rules_below hb).block.eq (Total.ne_starved readBlock_total s)

/-- Any budget that is large enough gives the settled reply. -/
theorem statements_of_le {b : Nat} {s : State} (hb : budgetFor s.rest.length ≤ b)
    (inBlock : Bool) : statements b inBlock s = readStatements inBlock s :=
  ((rules_below hb).statements inBlock).eq
    (Total.ne_starved (fun n => readStatements_total n inBlock) s)

/-! ### Their equations

The lists inside an operand keep a budget of their own; one for each lexeme is enough. -/

/-- A settled rule is its body over settled rules, whatever budget the body's lists get. -/
theorem settled_apply {α : Type} {r q : Nat → Rule α} {s : State} {b : Nat}
    (hr : ∀ c, (r (c + 1)).Below (q c))
    (hq : ∀ {c d : Nat}, c ≤ d → (q c).Below (q d))
    (hs : r (budgetFor s.rest.length) s ≠ .starved) (hb : q b s ≠ .starved) :
    r (budgetFor s.rest.length) s = q b s := by
  obtain ⟨c, hc⟩ : ∃ c, budgetFor s.rest.length = c + 1 := ⟨8 * s.rest.length + 7, rfl⟩
  rw [hc] at hs ⊢
  have hrc : q c s = r (c + 1) s := (hr c).eq hs
  rw [← hrc] at hs ⊢
  -- whichever of the two budgets is the smaller one, it gives a reply, which the larger keeps
  rcases Nat.le_total b c with hle | hle
  · exact (hq hle).eq hb
  · exact ((hq hle).eq hs).symm

theorem readExpression_apply (level : Precedence) {s : State} {b : Nat} (hb : s.rest.length ≤ b) :
    readExpression level s = (do
      skipBlankLines
      let left ← operand readExpression readBlock b
      readOperators level left : Rule Expr) s := by
  let body (c : Nat) : Rule Expr := do
    skipBlankLines
    let left ← operand readExpression readBlock c
    readOperators level left
  refine settled_apply (r := fun b => expression b level) (q := body) (fun c => ?_) (fun hcd => ?_)
    (Total.ne_starved (fun n => readExpression_total n level) s) ?_
  · unfold expression
    refine below_bind fun _ => ?_
    refine (operand_below (expression_below c) (block_below c) (Nat.le_refl c)).bind fun left => ?_
    exact operators_below c level left
  · exact below_bind fun _ =>
      (operand_below (fun _ => Below.refl _) (Below.refl _) hcd).bind fun _ => Below.refl _
  · have hop : (operand readExpression readBlock b).Total (s.rest.length + 1) 1 :=
      operand_total (readExpression_total _) (readBlock_total _) (by omega)
    have h := total_skipBlankLines.bind (j := 1) (m := 1) (fun _ => hop.bind (j := 0)
      (fun left => readOperators_total _ level left) (Nat.le_refl 1)) (Nat.le_refl 1)
    exact Reply.Leads.ne_starved (h s (Nat.lt_succ_self _))

/-- A token that does not bind more tightly than the level ends the operators. -/
theorem readOperators_stop {level : Precedence} (left : Expr) {s : State}
    (h : s.current.token.precedence.rank ≤ level.rank) : readOperators level left s = .ok left s := by
  obtain ⟨c, hc⟩ : ∃ c, budgetFor s.rest.length = c + 1 := ⟨8 * s.rest.length + 7, rfl⟩
  unfold readOperators
  rw [hc]
  unfold operators
  rw [look_bind, if_neg (by omega)]
  rfl

theorem readOperators_apply {level : Precedence} (left : Expr) {s : State} {b : Nat}
    (h : level.rank < s.current.token.precedence.rank) (hb : s.rest.length ≤ b) :
    readOperators level left s = (do
      let wider ← continuation readExpression b left
      readOperators level wider : Rule Expr) s := by
  let body (c : Nat) : Rule Expr := do
    if level.rank < (← look).token.precedence.rank then
      let wider ← continuation readExpression c left
      readOperators level wider
    else pure left
  have hbody : readOperators level left s = body b s := by
    refine settled_apply (r := fun b => operators b level left) (q := body) (fun c => ?_)
      (fun hcd => ?_) (Total.ne_starved (fun n => readOperators_total n level left) s) ?_
    · unfold operators
      refine below_bind fun x => ?_
      split
      · exact (continuation_below (expression_below c) (Nat.le_refl c) left).bind fun wider =>
          operators_below c level wider
      · exact Below.refl _
    · refine below_bind fun x => ?_
      split
      · exact (continuation_below (fun _ => Below.refl _) hcd left).bind fun _ => Below.refl _
      · exact Below.refl _
    · have htotal : (body b).Total (s.rest.length + 1) 0 := by
        refine total_look_bind fun t ht => ?_
        split
        · next hbinds =>
          have hc : (continuation readExpression b left).LeadsAt 1 t :=
            continuation_leads ht (ne_eof_of_binds hbinds) (readExpression_total _) (by omega) left
          exact hc.bind (j := 0) ht (fun wider => readOperators_total _ level wider) (by omega)
        · exact total_pure _ t ht
      exact Reply.Leads.ne_starved (htotal s (Nat.lt_succ_self _))
  rw [hbody]
  show (look >>= _) s = _
  rw [look_bind, if_pos h]

theorem readBlock_apply (s : State) :
    readBlock s = (do
      let opening ← expect .leftBrace
      let body ← readStatements true
      let closing ← expect .rightBrace
      pure ⟨body, ⟨opening.start, closing.stop⟩⟩ : Rule Block) s := by
  let body : Rule Block := do
    let opening ← expect .leftBrace
    let statements ← readStatements true
    let closing ← expect .rightBrace
    pure ⟨statements, ⟨opening.start, closing.stop⟩⟩
  have htotal : ∀ n, body.Total n 0 := by
    intro n
    refine (total_expect (by simp)).bind (j := 0) (fun _ => ?_) (Nat.zero_le _)
    refine (readStatements_total _ true).bind (j := 0) (fun _ => ?_) (Nat.zero_le _)
    exact (total_expect (by simp)).bind (j := 0) (fun _ => total_pure _) (Nat.zero_le _)
  refine settled_apply (b := 0) (r := block) (q := fun _ => body) (fun c => ?_)
    (fun _ => Below.refl _) (Total.ne_starved readBlock_total s) (Total.ne_starved htotal s)
  unfold block
  exact below_bind fun _ => (statements_below c true).bind fun _ => Below.refl _

/-! #### Statements, by what is in front -/

theorem readStatements_end {inBlock : Bool} {s : State}
    (h : endsStatements inBlock s.current.token = true) :
    readStatements inBlock s = .ok [] s := by
  obtain ⟨c, hc⟩ : ∃ c, budgetFor s.rest.length = c + 1 := ⟨8 * s.rest.length + 7, rfl⟩
  unfold readStatements
  rw [hc]
  unfold statements
  rw [if_pos h]

theorem readStatements_semicolon {inBlock : Bool} {s : State}
    (h : s.current.token = .semicolon) :
    readStatements inBlock s = readStatements inBlock s.step := by
  have hends : ¬ endsStatements inBlock s.current.token = true := by simp [h, endsStatements]
  obtain ⟨c, hc⟩ : ∃ c, budgetFor s.rest.length = c + 1 := ⟨8 * s.rest.length + 7, rfl⟩
  have hs := Total.ne_starved (fun n => readStatements_total n inBlock) s
  unfold readStatements at hs
  rw [hc] at hs
  have heq : statements (c + 1) inBlock s = statements c inBlock s.step := by
    conv => lhs; unfold statements
    rw [if_neg hends, if_pos h]
  rw [heq] at hs
  have hread := (statements_below c inBlock).eq hs
  rw [hread, ← heq, ← hc]
  rfl

/-- What reading statements does with the reply for the first one. -/
def thenStatements (inBlock : Bool) : Reply Stmt → Reply (List Stmt)
  | .ok first t => (do return first :: (← readStatements inBlock) : Rule (List Stmt)) t
  | .error e t => readStatements inBlock ((t.note e).recover inBlock)
  | .starved => .starved

theorem readStatements_apply {inBlock : Bool} {s : State}
    (hends : endsStatements inBlock s.current.token = false)
    (hsemi : s.current.token ≠ .semicolon) :
    readStatements inBlock s = thenStatements inBlock (statement readExpression readBlock s) := by
  have hends' : ¬ endsStatements inBlock s.current.token = true := by simp [hends]
  obtain ⟨c, hc⟩ : ∃ c, budgetFor s.rest.length = c + 1 := ⟨8 * s.rest.length + 7, rfl⟩
  have hs := Total.ne_starved (fun n => readStatements_total n inBlock) s
  unfold readStatements at hs
  rw [hc] at hs
  have hread : readStatements inBlock s = statements (c + 1) inBlock s := by
    rw [← hc]
    rfl
  rw [hread]
  unfold statements at hs ⊢
  rw [if_neg hends', if_neg hsemi] at hs ⊢
  -- a first statement that starves would starve the whole, which has a reply
  rcases statement_below (expression_below c) (block_below c) s with hst | hst
  · rw [hst] at hs
    exact absurd rfl hs
  · rw [← hst]
    cases hr : statement (expression c) (block c) s with
    | ok first t =>
      rw [hr] at hs
      exact (((statements_below c inBlock).bind fun _ => Below.refl _).eq hs).symm
    | error e t =>
      rw [hr] at hs
      exact ((statements_below c inBlock).eq hs).symm
    | starved => rfl

theorem readStatements_first {inBlock : Bool} {s t : State} {first : Stmt}
    (hends : endsStatements inBlock s.current.token = false)
    (hsemi : s.current.token ≠ .semicolon)
    (h : statement readExpression readBlock s = .ok first t) :
    readStatements inBlock s =
      (do return first :: (← readStatements inBlock) : Rule (List Stmt)) t := by
  rw [readStatements_apply hends hsemi, h]
  rfl

theorem readStatements_broken {inBlock : Bool} {s t : State} {e : SyntaxError}
    (hends : endsStatements inBlock s.current.token = false)
    (hsemi : s.current.token ≠ .semicolon)
    (h : statement readExpression readBlock s = .error e t) :
    readStatements inBlock s = readStatements inBlock ((t.note e).recover inBlock) := by
  rw [readStatements_apply hends hsemi, h]
  rfl

theorem statement_leads (s : State) :
    (statement readExpression readBlock s).Leads 1 s :=
  statement_total (readExpression_total _) (readBlock_total _) s (Nat.lt_succ_self _)

/-- Induction along the statements of a text or a block, broken ones included. -/
theorem statements_induction (inBlock : Bool) {P : State → Prop}
    (ends : ∀ s, endsStatements inBlock s.current.token = true → P s)
    (semicolon : ∀ s, s.current.token = .semicolon → P s.step → P s)
    (first : ∀ s a t, endsStatements inBlock s.current.token = false →
      s.current.token ≠ .semicolon → statement readExpression readBlock s = .ok a t →
      s.Leads 1 t → P t → P s)
    (broken : ∀ s e t, endsStatements inBlock s.current.token = false →
      s.current.token ≠ .semicolon → statement readExpression readBlock s = .error e t →
      s.Leads 0 t → P ((t.note e).recover inBlock) → P s)
    (s : State) : P s := by
  by_cases hends : endsStatements inBlock s.current.token = true
  · exact ends s hends
  · have hends : endsStatements inBlock s.current.token = false := by simpa using hends
    by_cases hsemi : s.current.token = .semicolon
    · have hlen := (State.step_leads_one (s := s) (by simp [hsemi])).length_le
      exact semicolon s hsemi (statements_induction inBlock ends semicolon first broken s.step)
    · have hst := statement_leads s
      cases hr : statement readExpression readBlock s with
      | ok a t =>
        rw [hr] at hst
        have hlen := State.Leads.length_le hst
        exact first s a t hends hsemi hr hst
          (statements_induction inBlock ends semicolon first broken t)
      | error e t =>
        rw [hr] at hst
        have hlen := (recover_leads_of_error hends hst hr).length_le
        exact broken s e t hends hsemi hr hst
          (statements_induction inBlock ends semicolon first broken _)
      | starved =>
        rw [hr] at hst
        exact hst.elim
termination_by s.rest.length

/-- Reading statements never stops at a fault: it goes on to the end of the text or of the block. -/
theorem readStatements_ok (inBlock : Bool) (s : State) :
    ∃ ss t, readStatements inBlock s = .ok ss t ∧ endsStatements inBlock t.current.token = true := by
  induction s using statements_induction inBlock with
  | ends s h => exact ⟨[], s, readStatements_end h, h⟩
  | semicolon s h ih => rwa [readStatements_semicolon h]
  | first s a t hends hsemi hr _ ih =>
    obtain ⟨ss, u, hss, hu⟩ := ih
    refine ⟨a :: ss, u, ?_, hu⟩
    rw [readStatements_first hends hsemi hr, bind_ok hss]
    rfl
  | broken s e t hends hsemi hr _ ih => rwa [readStatements_broken hends hsemi hr]

/-! ### The beginning of a text or a block -/

variable {inBlock : Bool} {s t u : State} {ss ss' : List Stmt}

/-- From `s` the statements of a text or of a block are `ss` and then those from `t`. -/
def Begins (inBlock : Bool) (s : State) (ss : List Stmt) (t : State) : Prop :=
  ∀ more u, readStatements inBlock t = .ok more u → readStatements inBlock s = .ok (ss ++ more) u

theorem Begins.refl (s : State) : Begins inBlock s [] s := fun _ _ h => h

theorem Begins.trans (h : Begins inBlock s ss t) (h' : Begins inBlock t ss' u) :
    Begins inBlock s (ss ++ ss') u := by
  intro more v hv
  rw [List.append_assoc]
  exact h _ v (h' more v hv)

theorem Begins.semicolon (h : s.current.token = .semicolon) (ht : Begins inBlock s.step ss t) :
    Begins inBlock s ss t := by
  intro more u hu
  rw [readStatements_semicolon h]
  exact ht more u hu

theorem Begins.first {a : Stmt} (hends : endsStatements inBlock s.current.token = false)
    (hsemi : s.current.token ≠ .semicolon) (h : statement readExpression readBlock s = .ok a t)
    (ht : Begins inBlock t ss u) : Begins inBlock s (a :: ss) u := by
  intro more v hv
  rw [readStatements_first hends hsemi h, bind_ok (ht more v hv)]
  rfl

theorem Begins.broken {e : SyntaxError} (hends : endsStatements inBlock s.current.token = false)
    (hsemi : s.current.token ≠ .semicolon)
    (h : statement readExpression readBlock s = .error e t)
    (ht : Begins inBlock ((t.note e).recover inBlock) ss u) : Begins inBlock s ss u := by
  intro more v hv
  rw [readStatements_broken hends hsemi h]
  exact ht more v hv

/-! ### Whole texts -/

/-- A text is read by reading its statements. -/
theorem parseLexemes_eq {xs : List Lexeme} {ss : List Stmt} {t : State}
    (h : readStatements false (State.ofLexemes xs) = .ok ss t) :
    parseLexemes xs =
      ⟨⟨ss, ⟨(State.ofLexemes xs).current.start, t.current.stop⟩⟩, t.errors⟩ := by
  have hst : statements (budgetFor xs.length) false (State.ofLexemes xs) = .ok ss t := by
    rw [← h]
    exact statements_of_le (Nat.le_refl _) false
  unfold parseLexemes program
  rw [look_bind, bind_ok hst]
  rfl

end Grammar

end Scriptlet
