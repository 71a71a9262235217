import Scriptlet.Proofs.Grammar.Simulation

/-!
# `Proofs.Grammar.Ending` — every loop of the grammar moves on or ends, and a text is read to its end

Reading loops in six places: over the statements of a text, over those of a block, over the items of a
list, over the operators behind an expression, over blank lines and over the rest of a broken
statement. A pass of one of them takes a lexeme that is not the end of the text, or it is the last one.
A pass that meets a fault is no exception: a statement may fail where it starts and recovery may stop
where it starts, but not both at the same lexeme.

## Contents
- `Rule.Moves`: the rule takes some lexemes whenever it gives a result, on any budget.
- `Pass`: what one pass of a loop does. `LoopsAdvance`: the passes of all the loops from one state.
- `loopsAdvance`: every pass, from every state and on every budget.
- `rulesReply`: a budget of three for each lexeme left is never used up.
- `program_reads_to_end`: a list of lexemes is read up to its first end of the text, and not past it.
-/

namespace Scriptlet

/-! ## Rules that move on, on any budget -/

/-- The rule has no budget left, or it takes at least `k` lexemes when it gives a result. -/
def Rule.Moves {α : Type} (k : Nat) (r : Rule α) : Prop := ∀ s, r s = .starved ∨ r.LeadsAt k s

namespace Rule

variable {α β : Type} {k : Nat}

/-- A rule whose replies a settled one gives too moves as far as that one. -/
theorem leadsAt_of_below {r r' : Rule α} (h : r.Below r') {s : State} (hs : r'.LeadsAt k s) :
    r s = .starved ∨ r.LeadsAt k s := by
  rcases h s with hr | hr
  · exact Or.inl hr
  · right
    unfold LeadsAt at hs ⊢
    rwa [hr]

theorem Below.moves {r r' : Rule α} (h : r.Below r') (h' : ∀ n, r'.Total n k) : r.Moves k :=
  fun s => leadsAt_of_below h (h' _ s (Nat.lt_succ_self _))

theorem total_moves {r : Rule α} (h : ∀ n, r.Total n k) : r.Moves k := (Below.refl r).moves h

end Rule

namespace Grammar

open Rule

theorem expression_moves (b : Nat) (level : Precedence) : (expression b level).Moves 1 :=
  (expression_below b level).moves fun n => readExpression_total n level

theorem entry_moves (b : Nat) : (entry (expression b)).Moves 1 :=
  (entry_below (expression_below b)).moves fun n => entry_total (readExpression_total n)

theorem statement_moves (b : Nat) : (statement (expression b) (block b)).Moves 1 :=
  (statement_below (expression_below b) (block_below b)).moves fun n =>
    statement_total (readExpression_total n) (readBlock_total n)

/-! ## One pass of a loop -/

section Passes

variable {α β : Type}

/-- One pass of a loop from `s`, by what `body` does there: the loop leaves with what it has, it leaves
    at a fault, it goes on behind at least one lexeme, or the budget of the pass is used up. -/
inductive Pass (s : State) (body : Rule β) (leave : Reply α) (again : β → Rule α) : Reply α → Prop
  | leaves : Pass s body leave again leave
  | fails {e : SyntaxError} {t : State} (h : body s = .error e t) (ht : s.Leads 0 t) :
      Pass s body leave again (.error e t)
  | goesOn {b : β} {t : State} (h : body s = .ok b t) (ht : s.Leads 1 t) :
      Pass s body leave again (again b t)
  | starves (h : body s = .starved) : Pass s body leave again .starved

theorem Pass.of_body {s : State} {body : Rule β} {again : β → Rule α} {leave : Reply α}
    (h : body s = .starved ∨ body.LeadsAt 1 s) : Pass s body leave again ((body >>= again) s) := by
  rw [bind_apply]
  rcases h with h | h
  · rw [h]
    exact .starves h
  · unfold LeadsAt at h
    cases hr : body s with
    | ok b t =>
      rw [hr] at h
      exact .goesOn hr h
    | error e t =>
      rw [hr] at h
      exact .fails hr h
    | starved => exact .starves hr

/-! ### Items of a list -/

/-- What one pass over the items of a list reads: a comma and an item. -/
def nextItem (item : Rule α) : Rule α := do
  skipBlankLines
  let _ ← take
  skipBlankLines
  item

/-- The items after the first one are read pass by pass, whatever budget is left for them. -/
def ItemsAdvance (item : Rule α) (s : State) : Prop :=
  ∀ c, Pass s (nextItem item) (.ok [] s.skipBlankLines)
    (fun first => do return first :: (← moreItems item c)) (moreItems item (c + 1) s)

theorem nextItem_leads {item : Rule α} (hi : item.Moves 1) {s : State}
    (hcomma : s.skipBlankLines.current.token = .comma) :
    nextItem item s = .starved ∨ (nextItem item).LeadsAt 1 s := by
  let t := s.skipBlankLines.step.skipBlankLines
  have hnext : nextItem item s = item t := rfl
  have hst : s.Leads 1 t :=
    ((State.skipBlankLines_leads s).trans (State.step_leads_one (by simp [hcomma]))).trans
      (State.skipBlankLines_leads _)
  unfold LeadsAt
  rw [hnext]
  rcases hi t with h | h
  · exact Or.inl h
  · exact Or.inr (Reply.Leads.after h hst (by omega))

/-- A pass over the items of a list and the passes after it. -/
theorem moreItems_eq_nextItem {item : Rule α} {c : Nat} {s : State}
    (hcomma : s.skipBlankLines.current.token = .comma) :
    moreItems item (c + 1) s =
      (nextItem item >>= fun first => do return first :: (← moreItems item c)) s := by
  conv => lhs; unfold moreItems
  rw [skipBlankLines_bind, look_bind, if_pos hcomma, bind_apply]
  rfl

theorem moreItems_done {item : Rule α} {c : Nat} {s : State}
    (hcomma : s.skipBlankLines.current.token ≠ .comma) :
    moreItems item (c + 1) s = .ok [] s.skipBlankLines := by
  unfold moreItems
  rw [skipBlankLines_bind, look_bind, if_neg hcomma]
  rfl

theorem itemsAdvance {item : Rule α} (hi : item.Moves 1) (s : State) : ItemsAdvance item s := by
  intro c
  by_cases hcomma : s.skipBlankLines.current.token = .comma
  · rw [moreItems_eq_nextItem hcomma]
    exact .of_body (nextItem_leads hi hcomma)
  · rw [moreItems_done hcomma]
    exact .leaves

/-! ### Statements -/

/-- What one pass over statements reads: a semicolon, a statement, or a broken one up to where reading
    goes on. -/
def nextStatement (b : Nat) (inBlock : Bool) : Rule (List Stmt) := fun s =>
  if s.current.token = .semicolon then .ok [] s.step
  else
    match statement (expression b) (block b) s with
    | .ok first t => .ok [first] t
    | .error e t => .ok [] ((t.note e).recover inBlock)
    | .starved => .starved

theorem nextStatement_leads {b : Nat} {inBlock : Bool} {s : State}
    (hends : endsStatements inBlock s.current.token = false) :
    nextStatement b inBlock s = .starved ∨ (nextStatement b inBlock).LeadsAt 1 s := by
  unfold LeadsAt nextStatement
  by_cases hsemi : s.current.token = .semicolon
  · rw [if_pos hsemi]
    exact Or.inr (State.step_leads_one (by simp [hsemi]))
  · rw [if_neg hsemi]
    rcases statement_moves b s with h | h
    · rw [h]
      exact Or.inl rfl
    · right
      unfold LeadsAt at h
      cases hr : statement (expression b) (block b) s with
      | ok first t =>
        rw [hr] at h
        exact h
      | error e t =>
        rw [hr] at h
        exact recover_leads_of_error hends h hr
      | starved =>
        rw [hr] at h
        exact h.elim

/-- A pass over statements and the passes after it. -/
theorem statements_eq_nextStatement {b : Nat} {inBlock : Bool} {s : State}
    (hends : endsStatements inBlock s.current.token = false) :
    statements (b + 1) inBlock s =
      (nextStatement b inBlock >>= fun ss => do return ss ++ (← statements b inBlock)) s := by
  have hends' : ¬ endsStatements inBlock s.current.token = true := by simp [hends]
  have hnone : ∀ t, (do return [] ++ (← statements b inBlock) : Rule (List Stmt)) t
      = statements b inBlock t := by
    intro t
    rw [bind_apply]
    cases statements b inBlock t <;> rfl
  rw [bind_apply]
  unfold nextStatement
  conv => lhs; unfold statements
  rw [if_neg hends']
  by_cases hsemi : s.current.token = .semicolon
  · rw [if_pos hsemi, if_pos hsemi]
    exact (hnone _).symm
  · rw [if_neg hsemi, if_neg hsemi]
    cases statement (expression b) (block b) s with
    | ok first t => rfl
    | error e t => exact (hnone _).symm
    | starved => rfl

end Passes

/-! ## All the loops -/

/-- One pass of each loop from the state `s`, on a budget of one more than `b`. -/
structure LoopsAdvance (b : Nat) (s : State) : Prop where
  statements (inBlock : Bool) :
    Pass s (nextStatement b inBlock) (.ok [] s) (fun ss => do return ss ++ (← statements b inBlock))
      (statements (b + 1) inBlock s)
  operators (level : Precedence) (left : Expr) :
    Pass s (continuation (expression b) b left) (.ok left s) (operators b level)
      (operators (b + 1) level left s)
  elements : ItemsAdvance (expression b .lowest) s
  entries : ItemsAdvance (entry (expression b)) s
  parameters : ItemsAdvance name s
  blankLines : s.skipBlankLines = s ∨
    s.Leads 1 s.step ∧ s.skipBlankLines = s.step.skipBlankLines
  recovery (inBlock : Bool) (depth : Nat) : Simulation.recoverFrom inBlock depth s = s ∨
    s.Leads 1 s.step ∧ (Simulation.recoverFrom inBlock depth s = s.step ∨
      ∃ depth', Simulation.recoverFrom inBlock depth s = Simulation.recoverFrom inBlock depth' s.step)

theorem statements_pass (b : Nat) (inBlock : Bool) (s : State) :
    Pass s (nextStatement b inBlock) (.ok [] s) (fun ss => do return ss ++ (← statements b inBlock))
      (statements (b + 1) inBlock s) := by
  by_cases hends : endsStatements inBlock s.current.token = true
  · have hleave : statements (b + 1) inBlock s = .ok [] s := by
      unfold statements
      rw [if_pos hends]
    rw [hleave]
    exact .leaves
  · have hends : endsStatements inBlock s.current.token = false := by simpa using hends
    rw [statements_eq_nextStatement hends]
    exact .of_body (nextStatement_leads hends)

theorem operators_pass (b : Nat) (level : Precedence) (left : Expr) (s : State) :
    Pass s (continuation (expression b) b left) (.ok left s) (operators b level)
      (operators (b + 1) level left s) := by
  unfold operators
  rw [look_bind]
  by_cases hbinds : level.rank < s.current.token.precedence.rank
  · rw [if_pos hbinds]
    -- on a budget that is enough for the lexemes left the settled rule gives the same reply
    have hsettled : (continuation readExpression (b + s.rest.length) left).LeadsAt 1 s :=
      continuation_leads (n := s.rest.length + 1) (Nat.lt_succ_self _) (ne_eof_of_binds hbinds)
        (readExpression_total _) (by omega) left
    have hbelow := continuation_below (expression_below b) (Nat.le_add_right b s.rest.length) left
    exact .of_body (leadsAt_of_below hbelow hsettled)
  · rw [if_neg hbinds]
    exact .leaves

theorem skipBlankLines_pass (s : State) : s.skipBlankLines = s ∨
    s.Leads 1 s.step ∧ s.skipBlankLines = s.step.skipBlankLines := by
  have hskip := State.skipBlankLines_eq s
  by_cases hblank : s.current.token = .blankLine
  · rw [if_pos hblank] at hskip
    exact Or.inr ⟨State.step_leads_one (by simp [hblank]), hskip⟩
  · rw [if_neg hblank] at hskip
    exact Or.inl hskip

theorem recoverFrom_pass (inBlock : Bool) (depth : Nat) (s : State) :
    Simulation.recoverFrom inBlock depth s = s ∨
    s.Leads 1 s.step ∧ (Simulation.recoverFrom inBlock depth s = s.step ∨
      ∃ depth', Simulation.recoverFrom inBlock depth s =
        Simulation.recoverFrom inBlock depth' s.step) := by
  by_cases heof : s.current.token = .eof
  · left
    rw [Simulation.recoverFrom_eq, heof]
  have hstep := State.step_leads_one heof
  rw [Simulation.recoverFrom_eq]
  split
  · exact Or.inl rfl
  · split
    · exact Or.inl rfl
    · exact Or.inr ⟨hstep, Or.inr ⟨depth, rfl⟩⟩
  · split
    · exact Or.inr ⟨hstep, Or.inl rfl⟩
    · exact Or.inr ⟨hstep, Or.inr ⟨depth, rfl⟩⟩
  · exact Or.inr ⟨hstep, Or.inr ⟨depth + 1, rfl⟩⟩
  · split
    · split
      · exact Or.inl rfl
      · exact Or.inr ⟨hstep, Or.inr ⟨0, rfl⟩⟩
    · next outer => exact Or.inr ⟨hstep, Or.inr ⟨outer, rfl⟩⟩
  · exact Or.inr ⟨hstep, Or.inr ⟨depth, rfl⟩⟩

/-- Every pass of every loop moves on or is the last one. -/
theorem loopsAdvance (b : Nat) (s : State) : LoopsAdvance b s where
  statements inBlock := statements_pass b inBlock s
  operators level left := operators_pass b level left s
  elements := itemsAdvance (expression_moves b .lowest) s
  entries := itemsAdvance (entry_moves b) s
  parameters := itemsAdvance (total_moves fun _ => name_total) s
  blankLines := skipBlankLines_pass s
  recovery inBlock depth := recoverFrom_pass inBlock depth s

/-! ## To the end of the text -/

/-- On the budget `b` no recursive rule starves from `s`. -/
structure RulesReply (b : Nat) (s : State) : Prop where
  expression (level : Precedence) : expression b level s ≠ .starved
  operators (level : Precedence) (left : Expr) : operators b level left s ≠ .starved
  block : block b s ≠ .starved
  statements (inBlock : Bool) : statements b inBlock s ≠ .starved

/-- A budget of three for each lexeme left, and three more, is never used up. -/
theorem rulesReply (s : State) (more : Nat) : RulesReply (3 * (s.rest.length + 1) + more) s := by
  have henough := enough (3 * (s.rest.length + 1) + more) (s.rest.length + 1)
  have hs := Nat.lt_succ_self s.rest.length
  exact
    { expression := fun level => (henough.expression (by omega) level s hs).ne_starved
      operators := fun level left => (henough.operators (by omega) level left s hs).ne_starved
      block := (henough.block (by omega) s hs).ne_starved
      statements := fun inBlock => (henough.statements (by omega) inBlock s hs).ne_starved }

/-- What is left in front of an end of the text, once everything before it has been taken. -/
theorem rest_eq_dropWhile {s t : State} {k : Nat} (h : s.Leads k t)
    (hend : t.current.token = .eof) :
    t.rest = s.rest.dropWhile (fun x => x.token ≠ .eof) := by
  obtain ⟨xs, hrest, -, -, hxs, -⟩ := h
  rw [hrest, List.dropWhile_append_of_pos (by simpa using hxs)]
  cases ht : t.rest with
  | nil => rfl
  | cons y ys =>
    have hy : y.token = .eof := by
      rw [← hend]
      simp [State.current, ht]
    rw [List.dropWhile_cons_of_neg (by simp [hy])]

/-- A list of lexemes, whether a lexer gave it or not, is read up to its first end of the text and not
    past it, since no pass of any loop stays where it is and no budget that grows with the number of
    lexemes is used up. -/
theorem program_reads_to_end (xs : List Lexeme) :
    (∃ p t, (∀ more, program (3 * (xs.length + 1) + more) (State.ofLexemes xs) = .ok p t) ∧
      parseLexemes xs = ⟨p, t.errors⟩ ∧ t.current.token = .eof ∧
      t.rest = xs.dropWhile (fun x => x.token ≠ .eof)) ∧
    (∀ b s, LoopsAdvance b s) ∧
    (∀ s more, RulesReply (3 * (s.rest.length + 1) + more) s) := by
  obtain ⟨ss, t, hread, hends⟩ := readStatements_ok false (State.ofLexemes xs)
  have heof : t.current.token = .eof := by
    cases htok : t.current.token <;> simp [htok, endsStatements] at hends ⊢
  have hleads : (State.ofLexemes xs).Leads 0 t := by
    have h := readStatements_total (xs.length + 1) false (State.ofLexemes xs) (Nat.lt_succ_self _)
    unfold LeadsAt at h
    rw [hread] at h
    exact h
  refine ⟨⟨_, t, fun more => ?_, parseLexemes_eq hread, heof, rest_eq_dropWhile hleads heof⟩,
    loopsAdvance, rulesReply⟩
  have hreply := (rulesReply (State.ofLexemes xs) more).statements false
  have hst : statements (3 * (xs.length + 1) + more) false (State.ofLexemes xs) = .ok ss t := by
    rw [← hread]
    exact ((statements_below _ false).eq hreply).symm
  unfold program
  rw [look_bind, bind_ok hst]
  rfl

end Grammar

end Scriptlet
