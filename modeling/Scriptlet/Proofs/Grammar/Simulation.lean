import Scriptlet.Proofs.Grammar.Settled

/-!
# `Proofs.Grammar.Simulation` — two readings that cannot tell their states apart

A rule looks at nothing but the lexeme in front. So two states that show the same lexeme, and go on
doing so after every step the rules take, give the same result or the same fault. What has to be known
about two such states may depend on the number of braces that the rules have opened and not yet
closed; a relation between states is therefore indexed by that number.

## Contents
- `Simulation`: what the relation has to keep under single steps. `TopSimulation`: also under the one
  step that only whole texts take.
- `Rule.Respects`: related states give the same reply and related states after it;
  `Rule.Respects.bind` composes it. There is one lemma for each rule.
- `readExpression_respects`, `readBlock_respects`, `statement_respects`: the rules on related states.
- `statements_simulate`: the statements of two related texts, or of two related blocks, are the same up
  to the place where the relation is left behind.
-/

namespace Scriptlet

/-! ## The relation -/

/-- `R depth` relates two states between which `depth` open braces belong to rules at work. A semicolon
    outside of all braces may lead out of the relation, into `Past`. -/
structure Simulation (R : Nat → State → State → Prop) (Past : State → State → Prop) : Prop where
  current {depth : Nat} {s s' : State} : R depth s s' → s.current = s'.current
  weaken {depth : Nat} {s s' : State} : R (depth + 1) s s' → R depth s s'
  step {depth : Nat} {s s' : State} : R depth s s' → s.current.token ≠ .semicolon →
    s.current.token ≠ .leftBrace → s.current.token ≠ .rightBrace → R depth s.step s'.step
  opens {depth : Nat} {s s' : State} : R depth s s' → s.current.token = .leftBrace →
    R (depth + 1) s.step s'.step
  closes {depth : Nat} {s s' : State} : R (depth + 1) s s' → s.current.token = .rightBrace →
    R depth s.step s'.step
  semicolon {depth : Nat} {s s' : State} : R (depth + 1) s s' → s.current.token = .semicolon →
    R (depth + 1) s.step s'.step
  crosses {s s' : State} : R 0 s s' → s.current.token = .semicolon →
    R 0 s.step s'.step ∨ Past s.step s'.step
  note {depth : Nat} {s s' : State} (e : SyntaxError) : R depth s s' →
    R depth (s.note e) (s'.note e)

/-- A brace that closes none, which only the statements of a whole text pass, leaves the states
    related. -/
def PassesStray (R : Nat → State → State → Prop) : Prop :=
  ∀ s s', R 0 s s' → s.current.token = .rightBrace → R 0 s.step s'.step

/-- A relation for whole texts. -/
structure TopSimulation (R : Nat → State → State → Prop) (Past : State → State → Prop) : Prop
    extends Simulation R Past where
  stray : PassesStray R

/-- The states after a statement: still related or, outside of all braces, past the end of that. -/
def Simulation.After (R : Nat → State → State → Prop) (Past : State → State → Prop) (depth : Nat)
    (s s' : State) : Prop :=
  R depth s s' ∨ (depth = 0 ∧ Past s s')

/-- Two replies with the same result or the same fault, and states that are related after it. -/
inductive Reply.Alike {α : Type} (Q E : State → State → Prop) : Reply α → Reply α → Prop
  | ok {a : α} {t t' : State} : Q t t' → Alike Q E (.ok a t) (.ok a t')
  | error {e : SyntaxError} {t t' : State} : E t t' → Alike Q E (.error e t) (.error e t')
  | starved : Alike Q E .starved .starved

/-- From these two states the rule gives replies alike. -/
def Rule.AlikeAt {α : Type} (Q E : State → State → Prop) (s s' : State) (r : Rule α) : Prop :=
  (r s).Alike Q E (r s')

/-- From states related by `P` the rule gives replies alike, with states related by `Q` after a result
    and by `E` after a fault. -/
def Rule.Respects {α : Type} (P Q E : State → State → Prop) (r : Rule α) : Prop :=
  ∀ s s', P s s' → r.AlikeAt Q E s s'

namespace Rule

variable {α β : Type} {P Q Q' E E' : State → State → Prop}

theorem AlikeAt.bind {r : Rule α} {f : α → Rule β} {s s' : State} (h : r.AlikeAt Q E s s')
    (hf : ∀ a, (f a).Respects Q Q' E) : (r >>= f).AlikeAt Q' E s s' := by
  unfold AlikeAt at h ⊢
  rw [bind_apply, bind_apply]
  generalize r s = x at h
  generalize r s' = x' at h
  cases h with
  | ok ht => exact hf _ _ _ ht
  | error ht => exact .error ht
  | starved => exact .starved

theorem Respects.bind {r : Rule α} {f : α → Rule β} (h : r.Respects P Q E)
    (hf : ∀ a, (f a).Respects Q Q' E) : (r >>= f).Respects P Q' E :=
  fun s s' hs => (h s s' hs).bind hf

theorem Respects.mono {r : Rule α} (h : r.Respects P Q E) (hQ : ∀ t t', Q t t' → Q' t t')
    (hE : ∀ t t', E t t' → E' t t') : r.Respects P Q' E' := by
  intro s s' hs
  have hr := h s s' hs
  unfold AlikeAt at hr ⊢
  generalize r s = x at hr ⊢
  generalize r s' = x' at hr ⊢
  cases hr with
  | ok ht => exact .ok (hQ _ _ ht)
  | error ht => exact .error (hE _ _ ht)
  | starved => exact .starved

theorem respects_pure (a : α) : (pure a : Rule α).Respects P P E := fun _ _ hs => .ok hs

theorem respects_starve : (starve : Rule α).Respects P Q E := fun _ _ _ => .starved

theorem respects_fail (fault : Fault) (span : Span) : (fail fault span : Rule α).Respects P Q P :=
  fun _ _ hs => .error hs

end Rule

namespace Simulation

open Rule Grammar

variable {R : Nat → State → State → Prop} {Past : State → State → Prop} {d : Nat} {α β : Type}

/-! ## Single lexemes -/

/-- The rule keeps the relation whether it gives a result or stops at a fault. -/
abbrev Keeps (R : Nat → State → State → Prop) (d : Nat) (r : Rule α) : Prop :=
  r.Respects (R d) (R d) (R d)

/-- Tokens that are neither a brace nor a semicolon. -/
def Plain (t : Token) : Prop := t ≠ .semicolon ∧ t ≠ .leftBrace ∧ t ≠ .rightBrace

theorem plain_kind (t : Token) : Plain t.kind ↔ Plain t := by
  cases t <;> simp [Plain, Token.kind]

theorem look_alike (h : Simulation R Past) {Q E : State → State → Prop} {f : Lexeme → Rule β}
    {s s' : State} (hs : R d s s') (hf : (f s.current).AlikeAt Q E s s') :
    (look >>= f).AlikeAt Q E s s' := by
  unfold AlikeAt at hf ⊢
  rw [Rule.look_bind, Rule.look_bind, ← h.current hs]
  exact hf

theorem look_bind (h : Simulation R Past) {Q E : State → State → Prop} {f : Lexeme → Rule β}
    (hf : ∀ s s', R d s s' → (f s.current).AlikeAt Q E s s') : (look >>= f).Respects (R d) Q E :=
  fun s s' hs => h.look_alike hs (hf s s' hs)

theorem take_bind (h : Simulation R Past) {Q E : State → State → Prop} {f : Lexeme → Rule β}
    {s s' : State} (hs : R d s s') (hp : Plain s.current.token)
    (hf : (f s.current).Respects (R d) Q E) : (take >>= f).AlikeAt Q E s s' := by
  have htake := hf _ _ (h.step hs hp.1 hp.2.1 hp.2.2)
  unfold AlikeAt at htake ⊢
  rw [Rule.take_bind, Rule.take_bind, ← h.current hs]
  exact htake

theorem currentIs_eq (h : Simulation R Past) {s s' : State} (hs : R d s s') (t : Token) :
    s.currentIs t = s'.currentIs t := by
  unfold State.currentIs
  rw [h.current hs]

theorem expect_alike (h : Simulation R Past) {t : Token} {Q : State → State → Prop}
    (hstep : ∀ s s', R d s s' → s.current.token.kind = t.kind → Q s.step s'.step) :
    (expect t).Respects (R d) Q (R d) := by
  intro s s' hs
  unfold AlikeAt expect
  rw [← h.currentIs_eq hs, ← h.current hs]
  split
  · next hc => exact .ok (hstep s s' hs (State.kind_eq_of_currentIs hc))
  · exact .error hs

theorem expect_plain (h : Simulation R Past) {t : Token} (ht : Plain t) : Keeps R d (expect t) := by
  refine h.expect_alike fun s s' hs hk => ?_
  have hp : Plain s.current.token := by
    rw [← plain_kind, hk, plain_kind]
    exact ht
  exact h.step hs hp.1 hp.2.1 hp.2.2

theorem expect_leftBrace (h : Simulation R Past) :
    (expect .leftBrace).Respects (R d) (R (d + 1)) (R d) :=
  h.expect_alike fun _ _ hs hk => h.opens hs (Token.eq_of_kind rfl hk)

theorem expect_rightBrace (h : Simulation R Past) :
    (expect .rightBrace).Respects (R (d + 1)) (R d) (R d) :=
  (h.expect_alike (Q := R d) fun _ _ hs hk => h.closes hs (Token.eq_of_kind rfl hk)).mono
    (fun _ _ ht => ht) fun _ _ ht => h.weaken ht

/-- Where no brace is open the semicolon may lead past the end of the relation. -/
theorem step_semicolon (h : Simulation R Past) {s s' : State} (hs : R d s s')
    (hc : s.current.token = .semicolon) : After R Past d s.step s'.step := by
  cases d with
  | zero => exact (h.crosses hs hc).imp_right fun hp => ⟨rfl, hp⟩
  | succ d => exact Or.inl (h.semicolon hs hc)

theorem skipOptional_semicolon (h : Simulation R Past) :
    (skipOptional .semicolon).Respects (R d) (After R Past d) (R d) := by
  intro s s' hs
  unfold AlikeAt skipOptional
  rw [← h.currentIs_eq hs]
  split
  · next hc =>
    have hsemi := Token.eq_of_kind rfl (State.kind_eq_of_currentIs hc)
    exact .ok (h.step_semicolon hs hsemi)
  · exact .ok (Or.inl hs)

/-! ## Several lexemes -/

theorem state_skipBlankLines (h : Simulation R Past) {s s' : State} (hs : R d s s') :
    R d s.skipBlankLines s'.skipBlankLines := by
  rw [State.skipBlankLines_eq s, State.skipBlankLines_eq s', ← h.current hs]
  split
  · next hb =>
    have hlen := (State.step_leads_one (s := s) (by simp [hb])).length_le
    exact h.state_skipBlankLines (h.step hs (by simp [hb]) (by simp [hb]) (by simp [hb]))
  · exact hs
termination_by s.rest.length

theorem skipBlankLines_keeps (h : Simulation R Past) : Keeps R d skipBlankLines :=
  fun _ _ hs => .ok (h.state_skipBlankLines hs)

theorem moreItems_keeps (h : Simulation R Past) {item : Rule α} (hi : Keeps R d item) (b : Nat) :
    Keeps R d (moreItems item b) := by
  induction b with
  | zero => exact respects_starve
  | succ b ih =>
    unfold moreItems
    refine h.skipBlankLines_keeps.bind fun _ => h.look_bind fun s s' hs => ?_
    split
    · next hc =>
      refine h.take_bind hs (by simp [hc, Plain]) ?_
      refine h.skipBlankLines_keeps.bind fun _ => hi.bind fun first => ih.bind fun others => ?_
      exact respects_pure _
    · exact respects_pure _ s s' hs

theorem listOf_keeps (h : Simulation R Past) {item : Rule α} {close : Token} (hc : Plain close)
    (hi : Keeps R d item) (b : Nat) : Keeps R d (listOf close item b) := by
  unfold listOf
  refine h.skipBlankLines_keeps.bind fun _ => h.look_bind fun s s' hs => ?_
  split
  · exact (h.expect_plain hc).bind (fun _ => respects_pure _) s s' hs
  · refine hi.bind (fun first => ?_) s s' hs
    refine (h.moreItems_keeps hi b).bind fun others => ?_
    exact (h.expect_plain hc).bind fun _ => respects_pure _

/-- Entries end in the brace that was opened before them. -/
theorem listOf_rightBrace (h : Simulation R Past) {item : Rule α} (hi : Keeps R (d + 1) item)
    (b : Nat) : (listOf .rightBrace item b).Respects (R (d + 1)) (R d) (R d) := by
  have hweak {β : Type} {r : Rule β} (hr : Keeps R (d + 1) r) :
      r.Respects (R (d + 1)) (R (d + 1)) (R d) :=
    hr.mono (fun _ _ ht => ht) fun _ _ ht => h.weaken ht
  unfold listOf
  refine (hweak h.skipBlankLines_keeps).bind fun _ => h.look_bind fun s s' hs => ?_
  split
  · exact h.expect_rightBrace.bind (fun _ => respects_pure _) s s' hs
  · refine (hweak hi).bind (fun first => ?_) s s' hs
    refine (hweak (h.moreItems_keeps hi b)).bind fun others => ?_
    exact h.expect_rightBrace.bind fun _ => respects_pure _

/-! ## The rules over their parts -/

section Parts

variable {expr : ExprRule} {block : Rule Block}

theorem name_keeps (h : Simulation R Past) : Keeps R d name := by
  refine h.look_bind fun s s' hs => ?_
  split
  · next ht => exact h.take_bind hs (by simp [ht, Plain]) (respects_pure _)
  · exact respects_fail _ _ s s' hs

theorem array_keeps (h : Simulation R Past) (he : ∀ l, Keeps R d (expr l)) (b : Nat) :
    Keeps R d (array expr b) := by
  refine (h.expect_plain (by simp [Plain])).bind fun _ => ?_
  exact (h.listOf_keeps (by simp [Plain]) (he _) b).bind fun _ => respects_pure _

theorem entry_keeps (h : Simulation R Past) (he : ∀ l, Keeps R d (expr l)) :
    Keeps R d (entry expr) := by
  refine (he _).bind fun _ => h.skipBlankLines_keeps.bind fun _ => ?_
  refine (h.expect_plain (by simp [Plain])).bind fun _ => ?_
  exact (he _).bind fun _ => respects_pure _

theorem hash_keeps (h : Simulation R Past) (he : ∀ l, Keeps R (d + 1) (expr l)) (b : Nat) :
    Keeps R d (hash expr b) := by
  refine h.expect_leftBrace.bind fun _ => ?_
  exact (h.listOf_rightBrace (h.entry_keeps he) b).bind fun _ => respects_pure _

theorem cond_keeps (h : Simulation R Past) (he : ∀ l, Keeps R d (expr l)) (hb : Keeps R d block) :
    Keeps R d (cond expr block) := by
  refine (h.expect_plain (by simp [Plain])).bind fun _ => (he _).bind fun _ => hb.bind fun _ => ?_
  refine h.look_bind fun s s' hs => ?_
  split
  · next ht =>
    refine h.take_bind hs (by simp [ht, Plain]) ?_
    exact hb.bind fun _ => respects_pure _
  · exact respects_pure _ s s' hs

theorem loop_keeps (h : Simulation R Past) (he : ∀ l, Keeps R d (expr l)) (hb : Keeps R d block) :
    Keeps R d (loop expr block) := by
  refine (h.expect_plain (by simp [Plain])).bind fun _ => (he _).bind fun _ => ?_
  exact hb.bind fun _ => respects_pure _

theorem func_keeps (h : Simulation R Past) (hb : Keeps R d block) (b : Nat) :
    Keeps R d (func block b) := by
  refine (h.expect_plain (by simp [Plain])).bind fun _ => ?_
  refine (h.expect_plain (by simp [Plain])).bind fun _ => ?_
  refine (h.listOf_keeps (by simp [Plain]) h.name_keeps b).bind fun _ => ?_
  exact hb.bind fun _ => respects_pure _

/-- What an expression can start with is seen in its first token, which a literal takes whole. -/
theorem operand_keeps (h : Simulation R Past) (he : ∀ d l, Keeps R d (expr l))
    (hb : ∀ d, Keeps R d block) (b : Nat) : Keeps R d (operand expr block b) := by
  refine h.look_bind fun s s' hs => ?_
  split
  case h_1 => exact h.name_keeps.bind (fun _ => respects_pure _) s s' hs
  case h_2 ht | h_3 ht =>
    refine h.take_bind hs (by simp [ht, Plain]) ?_
    split
    · exact respects_pure _
    · exact respects_fail _ _
  case h_4 ht | h_5 ht | h_6 ht =>
    exact h.take_bind hs (by simp [ht, Plain]) (respects_pure _)
  case h_7 ht | h_8 ht =>
    refine h.take_bind hs (by simp [ht, Plain]) ?_
    split
    · exact (he _ _).bind fun _ => respects_pure _
    · exact respects_fail _ _
  case h_9 => exact h.array_keeps (he _) b s s' hs
  case h_10 => exact h.hash_keeps (he _) b s s' hs
  case h_11 => exact h.cond_keeps (he _) (hb _) s s' hs
  case h_12 => exact h.loop_keeps (he _) (hb _) s s' hs
  case h_13 => exact h.func_keeps (hb _) b s s' hs
  case h_14 ht =>
    refine h.take_bind hs (by simp [ht, Plain]) ?_
    refine (he _ _).bind fun _ => h.skipBlankLines_keeps.bind fun _ => ?_
    exact (h.expect_plain (by simp [Plain])).bind fun _ => respects_pure _
  case h_15 => exact respects_fail _ _ s s' hs

/-- A token that binds more tightly than some level is neither a brace nor a semicolon. -/
theorem plain_of_binds {t : Token} {k : Nat} (ht : k < t.precedence.rank) : Plain t := by
  cases t <;> simp_all [Plain, Token.precedence, Precedence.rank]

theorem continuation_alike (h : Simulation R Past) (he : ∀ l, Keeps R d (expr l)) (b : Nat)
    (left : Expr) {s s' : State} (hs : R d s s') (hp : Plain s.current.token) :
    (continuation expr b left).AlikeAt (R d) (R d) s s' := by
  refine h.look_alike hs ?_
  split
  · refine Respects.bind (h.expect_plain (by simp [Plain])) (fun _ => ?_) s s' hs
    exact (h.listOf_keeps (by simp [Plain]) (he _) b).bind fun _ => respects_pure _
  · refine Respects.bind (h.expect_plain (by simp [Plain])) (fun _ => ?_) s s' hs
    refine (he _).bind fun _ => h.skipBlankLines_keeps.bind fun _ => ?_
    exact (h.expect_plain (by simp [Plain])).bind fun _ => respects_pure _
  · refine h.take_bind hs hp ?_
    split
    · exact (he _).bind fun _ => respects_pure _
    · exact respects_fail _ _

/-- A semicolon is taken at the end of a statement only. -/
theorem statement_respects (h : Simulation R Past) (he : ∀ l, Keeps R d (expr l))
    (hb : Keeps R d block) : (statement expr block).Respects (R d) (After R Past d) (R d) := by
  refine h.look_bind fun s s' hs => ?_
  split
  · next ht =>
    refine h.take_bind hs (by simp [ht, Plain]) ?_
    exact (respects_pure _).mono (fun _ _ => Or.inl) fun _ _ ht => ht
  · refine Respects.bind (h.expect_plain (by simp [Plain])) (fun _ => ?_) s s' hs
    refine h.name_keeps.bind fun _ => (h.expect_plain (by simp [Plain])).bind fun _ => ?_
    exact (he _).bind fun _ => h.skipOptional_semicolon.bind fun _ => respects_pure _
  · refine Respects.bind (h.expect_plain (by simp [Plain])) (fun _ => ?_) s s' hs
    exact (he _).bind fun _ => h.skipOptional_semicolon.bind fun _ => respects_pure _
  · refine Respects.bind hb (fun _ => ?_) s s' hs
    exact (respects_pure _).mono (fun _ _ => Or.inl) fun _ _ ht => ht
  · refine Respects.bind (he _) (fun _ => ?_) s s' hs
    exact h.skipOptional_semicolon.bind fun _ => respects_pure _

end Parts

/-! ## Recovery -/

/-- Recovery with some braces open that were passed on the way. -/
def recoverFrom (inBlock : Bool) (depth : Nat) (s : State) : State :=
  let (rest, stop) := State.dropBroken inBlock depth s.rest s.stop
  { s with rest, stop }

/-- Recovery goes by the token in front. -/
theorem recoverFrom_eq (inBlock : Bool) (depth : Nat) (s : State) :
    recoverFrom inBlock depth s = match s.current.token with
      | .eof => s
      | .blankLine => if depth = 0 then s else recoverFrom inBlock depth s.step
      | .semicolon => if depth = 0 then s.step else recoverFrom inBlock depth s.step
      | .leftBrace => recoverFrom inBlock (depth + 1) s.step
      | .rightBrace =>
        match depth with
        | 0 => if inBlock then s else recoverFrom inBlock 0 s.step
        | depth + 1 => recoverFrom inBlock depth s.step
      | _ => recoverFrom inBlock depth s.step := by
  obtain ⟨rest, stop, errors⟩ := s
  cases rest with
  | nil => rfl
  | cons x xs =>
    rw [State.current_cons, State.step_cons]
    show (⟨(State.dropBroken inBlock depth (x :: xs) stop).1,
      (State.dropBroken inBlock depth (x :: xs) stop).2, errors⟩ : State) = _
    unfold State.dropBroken
    obtain ⟨start, token, stop'⟩ := x
    cases token
    case blankLine | semicolon => by_cases hd : depth = 0 <;> simp [hd, recoverFrom]
    case rightBrace => cases depth <;> cases inBlock <;> rfl
    all_goals rfl

/-- Braces that recovery passes are open braces of the text, so that it ends where the rules that
    are still at work expect. Only at the top of the text does it pass a brace that nothing opened. -/
theorem recoverFrom_after (h : Simulation R Past) {inBlock : Bool}
    (hd : inBlock = false → d = 0 ∧ PassesStray R)
    {depth : Nat} {s s' : State} (hs : R (d + depth) s s') :
    After R Past d (recoverFrom inBlock depth s) (recoverFrom inBlock depth s') := by
  -- braces that recovery has open itself may be forgotten when it stops
  have hdown : ∀ {k : Nat} {t t' : State}, R (d + k) t t' → R d t t' := by
    intro k t t' ht
    induction k with
    | zero => exact ht
    | succ k ih => exact ih (h.weaken ht)
  by_cases hend : s.current.token = .eof
  · rw [recoverFrom_eq _ _ s, recoverFrom_eq _ _ s', ← h.current hs, hend]
    exact Or.inl (hdown hs)
  have hlen := (State.step_leads_one hend).length_le
  rw [recoverFrom_eq _ _ s, recoverFrom_eq _ _ s', ← h.current hs]
  split
  · next heof => exact absurd heof hend
  · next hblank =>
    split
    · exact Or.inl (hdown hs)
    · exact h.recoverFrom_after hd
        (h.step hs (by simp [hblank]) (by simp [hblank]) (by simp [hblank]))
  · next hsemi =>
    split
    · next hzero =>
      subst hzero
      exact h.step_semicolon hs hsemi
    · next hpos =>
      obtain ⟨k, rfl⟩ : ∃ k, depth = k + 1 := ⟨depth - 1, by omega⟩
      exact h.recoverFrom_after hd (h.semicolon hs hsemi)
  · next hopen => exact h.recoverFrom_after hd (h.opens hs hopen)
  · next hclose =>
    split
    · split
      · exact Or.inl hs
      · next hin =>
        -- only at the top of a text is a brace passed that closes none
        obtain ⟨hzero, hstray⟩ := hd (by simpa using hin)
        rw [hzero] at hs
        exact h.recoverFrom_after hd (by rw [hzero]; exact hstray _ _ hs hclose)
    · exact h.recoverFrom_after hd (h.closes hs hclose)
  · next h1 h2 h3 h4 h5 => exact h.recoverFrom_after hd (h.step hs h3 h4 h5)
termination_by s.rest.length

theorem recover_after (h : Simulation R Past) {inBlock : Bool}
    (hd : inBlock = false → d = 0 ∧ PassesStray R) {s s' : State} (hs : R d s s') :
    After R Past d (s.recover inBlock) (s'.recover inBlock) :=
  h.recoverFrom_after hd (show R (d + 0) s s' from hs)

/-! ## The recursive rules -/

/-- The rules with budget `b` keep the relation, statements those of a block whose brace is open. -/
structure RulesKeep (R : Nat → State → State → Prop) (b : Nat) : Prop where
  expression : ∀ d level, Keeps R d (expression b level)
  operators : ∀ d level left, Keeps R d (operators b level left)
  block : ∀ d, Keeps R d (block b)
  statements : ∀ d, Keeps R (d + 1) (statements b true)

theorem operators_succ_keeps (h : Simulation R Past) {b : Nat} (hb : RulesKeep R b)
    (level : Precedence) (left : Expr) : Keeps R d (operators (b + 1) level left) := by
  unfold operators
  refine h.look_bind fun s s' hs => ?_
  split
  · next hrank =>
    refine (h.continuation_alike (hb.expression d) b left hs (plain_of_binds hrank)).bind ?_
    exact fun wider => hb.operators d level wider
  · exact respects_pure _ s s' hs

theorem statements_succ_keeps (h : Simulation R Past) {b : Nat} (hb : RulesKeep R b) :
    Keeps R (d + 1) (statements (b + 1) true) := by
  intro s s' hs
  -- inside a block no semicolon leads out of the relation
  have hin : ∀ {t t' : State}, After R Past (d + 1) t t' → R (d + 1) t t' := by
    rintro t t' (ht | ⟨hzero, -⟩)
    · exact ht
    · exact absurd hzero (Nat.succ_ne_zero d)
  unfold AlikeAt statements
  rw [← h.current hs]
  split
  · exact .ok hs
  · split
    · next hsemi => exact hb.statements d _ _ (h.semicolon hs hsemi)
    · have hst := h.statement_respects (hb.expression (d + 1)) (hb.block (d + 1)) s s' hs
      unfold AlikeAt at hst
      generalize statement (expression b) (Grammar.block b) s = x at hst
      generalize statement (expression b) (Grammar.block b) s' = x' at hst
      cases hst with
      | ok ht => exact (hb.statements d).bind (fun _ => respects_pure _) _ _ (hin ht)
      | error ht =>
        exact hb.statements d _ _ (hin (h.recover_after (by simp) (h.note _ ht)))
      | starved => exact .starved

theorem rules_keep (h : Simulation R Past) (b : Nat) : RulesKeep R b := by
  induction b with
  | zero =>
    exact ⟨fun _ _ => respects_starve, fun _ _ _ => respects_starve, fun _ => respects_starve,
      fun _ => respects_starve⟩
  | succ b ih =>
    refine ⟨fun d level => ?_, fun d => h.operators_succ_keeps ih, fun d => ?_,
      fun d => h.statements_succ_keeps ih⟩
    · unfold expression
      refine h.skipBlankLines_keeps.bind fun _ => ?_
      exact (h.operand_keeps ih.expression ih.block b).bind fun left => ih.operators d level left
    · unfold block
      refine h.expect_leftBrace.bind fun _ => ?_
      refine ((ih.statements d).mono (fun _ _ ht => ht) fun _ _ ht => h.weaken ht).bind fun _ => ?_
      exact h.expect_rightBrace.bind fun _ => respects_pure _

/-! ### Without budgets -/

theorem readExpression_keeps (h : Simulation R Past) (level : Precedence) :
    Keeps R d (readExpression level) := by
  intro s s' hs
  -- the two states may have different numbers of lexemes left, and so different budgets
  have hkeep := h.rules_keep (max (budgetFor s.rest.length) (budgetFor s'.rest.length))
  have hb := hkeep.expression d level s s' hs
  unfold AlikeAt at hb ⊢
  rw [expression_of_le (Nat.le_max_left _ _), expression_of_le (Nat.le_max_right _ _)] at hb
  exact hb

theorem readBlock_keeps (h : Simulation R Past) : Keeps R d readBlock := by
  intro s s' hs
  have hkeep := h.rules_keep (max (budgetFor s.rest.length) (budgetFor s'.rest.length))
  have hb := hkeep.block d s s' hs
  unfold AlikeAt at hb ⊢
  rw [block_of_le (Nat.le_max_left _ _), block_of_le (Nat.le_max_right _ _)] at hb
  exact hb

theorem readStatements_keeps (h : Simulation R Past) : Keeps R (d + 1) (readStatements true) := by
  intro s s' hs
  have hkeep := h.rules_keep (max (budgetFor s.rest.length) (budgetFor s'.rest.length))
  have hb := hkeep.statements d s s' hs
  unfold AlikeAt at hb ⊢
  rw [statements_of_le (Nat.le_max_left _ _), statements_of_le (Nat.le_max_right _ _)] at hb
  exact hb

/-! ## Whole texts and the statements of one block -/

/-- Two related texts, or blocks whose opening brace is behind them, begin with the same statements.
    These go on to the place where the relation ends, or to the end of both. -/
theorem statements_simulate (h : Simulation R Past) {inBlock : Bool}
    (htop : inBlock = false → PassesStray R) {s s' : State} (hs : R 0 s s') :
    ∃ ss t t', (Past t t' ∨ (R 0 t t' ∧ endsStatements inBlock t.current.token = true)) ∧
      Begins inBlock s ss t ∧ Begins inBlock s' ss t' := by
  -- along the statements of the first text; the second one's follow it statement by statement
  induction s using statements_induction inBlock generalizing s' with
  | ends s hend => exact ⟨[], s, s', Or.inr ⟨hs, hend⟩, Begins.refl s, Begins.refl s'⟩
  | semicolon s hsemi ih =>
    have hsemi' : s'.current.token = .semicolon := h.current hs ▸ hsemi
    rcases h.crosses hs hsemi with hstep | hpast
    · obtain ⟨ss, t, t', ht, hb, hb'⟩ := ih hstep
      exact ⟨ss, t, t', ht, hb.semicolon hsemi, hb'.semicolon hsemi'⟩
    · exact ⟨[], s.step, s'.step, Or.inl hpast, (Begins.refl _).semicolon hsemi,
        (Begins.refl _).semicolon hsemi'⟩
  | first s a t hends hsemi hr _ ih =>
    have hends' : endsStatements inBlock s'.current.token = false := h.current hs ▸ hends
    have hsemi' : s'.current.token ≠ .semicolon := h.current hs ▸ hsemi
    have hst := h.statement_respects h.readExpression_keeps h.readBlock_keeps s s' hs
    unfold AlikeAt at hst
    rw [hr] at hst
    generalize hr' : statement readExpression readBlock s' = x' at hst
    cases hst with
    | @ok _ _ t' ht =>
      rcases ht with ht | ⟨-, hpast⟩
      · obtain ⟨ss, u, u', hu, hb, hb'⟩ := ih ht
        exact ⟨a :: ss, u, u', hu, hb.first hends hsemi hr, hb'.first hends' hsemi' hr'⟩
      · exact ⟨[a], t, t', Or.inl hpast, (Begins.refl t).first hends hsemi hr,
          (Begins.refl t').first hends' hsemi' hr'⟩
  | broken s e t hends hsemi hr _ ih =>
    have hends' : endsStatements inBlock s'.current.token = false := h.current hs ▸ hends
    have hsemi' : s'.current.token ≠ .semicolon := h.current hs ▸ hsemi
    have hst := h.statement_respects h.readExpression_keeps h.readBlock_keeps s s' hs
    unfold AlikeAt at hst
    rw [hr] at hst
    generalize hr' : statement readExpression readBlock s' = x' at hst
    cases hst with
    | @error _ _ t' ht =>
      rcases h.recover_after (fun hin => ⟨rfl, htop hin⟩) (h.note e ht) with ht | ⟨-, hpast⟩
      · obtain ⟨ss, u, u', hu, hb, hb'⟩ := ih ht
        exact ⟨ss, u, u', hu, hb.broken hends hsemi hr, hb'.broken hends' hsemi' hr'⟩
      · exact ⟨[], _, _, Or.inl hpast, (Begins.refl _).broken hends hsemi hr,
          (Begins.refl _).broken hends' hsemi' hr'⟩

end Simulation

open Grammar in
/-- Two related texts begin with the same statements, up to the place where the relation ends or to the
    end of both texts. -/
theorem TopSimulation.readStatements_simulates {R : Nat → State → State → Prop}
    {Past : State → State → Prop} (h : TopSimulation R Past) {s s' : State} (hs : R 0 s s') :
    ∃ ss t t', (Past t t' ∨ (R 0 t t' ∧ t.current.token = .eof)) ∧
      Begins false s ss t ∧ Begins false s' ss t' := by
  obtain ⟨ss, t, t', ht, hb, hb'⟩ := h.statements_simulate (fun _ => h.stray) hs
  refine ⟨ss, t, t', ht.imp_right fun ⟨hrel, hends⟩ => ⟨hrel, ?_⟩, hb, hb'⟩
  cases hc : t.current.token <;> simp_all [endsStatements]

end Scriptlet
