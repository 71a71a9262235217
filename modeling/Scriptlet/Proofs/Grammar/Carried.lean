import Scriptlet.Proofs.Grammar.Simulation
import Scriptlet.Proofs.Syntax.Normal
import Scriptlet.Proofs.Token.Joined

/-!
# `Proofs.Grammar.Carried` — a text read in another place

A text that is read without a fault is read in the same way wherever its tokens stand, if behind them
stands what ends a statement: the end of a text or a semicolon. Two states are followed side by side,
the first one in the text alone. Where a rule meets the end of the first text, it can give a result
only if it takes nothing more, and then it takes nothing of what follows in the second text either, a
semicolon apart that ends the last statement.

## Contents
- `EndsAs`, `Ahead`, `After`: what stands behind the tokens of the first text, and states of two
  readings, before the end of the first text and at it.
- `Rule.Carries`: a result of the first reading without faults is one of the second, the same but for
  its places. `Rule.CarriesAt.bind` composes it; there is one lemma for each rule.
- `rules_carry`: the recursive rules. `statements_carried`: the statements of a text.
- `parse_joined`: two texts with a semicolon between them.
-/

namespace Scriptlet

/-! ## Two states -/

/-- The tokens left. -/
def State.tokens (s : State) : List Token := s.rest.map Lexeme.token

/-- What stands in the second text where the first one ends: the end, or a semicolon with `more`
    behind it, and perhaps a blank line in front. -/
def EndsAs : Option (List Token) → List Token → Prop
  | none, tail => tail = [.eof]
  | some more, tail => ∃ gap, IsGap gap ∧ tail = gap ++ .semicolon :: more

/-- Both states have the same tokens in front, up to the end of the first text. -/
def Ahead (more : Option (List Token)) (s s' : State) : Prop :=
  ∃ ts tail, (∀ t ∈ ts, t ≠ .eof) ∧ s.tokens = ts ++ [.eof] ∧ s'.tokens = ts ++ tail ∧
    EndsAs more tail

/-- The states after a statement: the first one may be at the end of its text, and the second one past
    the semicolon that ends the statement there. -/
def After (more : Option (List Token)) (s s' : State) : Prop :=
  Ahead more s s' ∨ (s.current.token = .eof ∧ more = some s'.tokens)

namespace Token

/-- Tokens that may stand in front where a statement has ended. -/
def isPause : Token → Bool
  | eof | semicolon | blankLine => true
  | _ => false

/-- The token that a rule meets in the second text where it meets `t` in the first one. -/
structure StandsFor (t' t : Token) : Prop where
  eq : t ≠ .eof → t' = t
  pause : t = .eof → t'.isPause = true

variable {t t' u : Token}

theorem isPause_kind (t : Token) : t.kind.isPause = t.isPause := by cases t <;> rfl

theorem precedence_of_isPause (h : t.isPause = true) : t.precedence = .lowest := by
  cases t <;> simp_all [isPause, precedence]

namespace StandsFor

theorem precedence (h : t'.StandsFor t) : t'.precedence = t.precedence := by
  by_cases ht : t = .eof
  · rw [precedence_of_isPause (h.pause ht), ht]
    rfl
  · rw [h.eq ht]

/-- Both tokens answer alike whether they are of a kind that does not end a statement. -/
theorem kind_iff (h : t'.StandsFor t) (hu : u.isPause = false) :
    t'.kind = u.kind ↔ t.kind = u.kind := by
  by_cases ht : t = .eof
  · have hno : ∀ v : Token, v.isPause = true → v.kind ≠ u.kind := by
      intro v hv heq
      rw [← isPause_kind, heq, isPause_kind, hu] at hv
      cases hv
    exact iff_of_false (hno t' (h.pause ht)) (hno t (by rw [ht]; rfl))
  · rw [h.eq ht]

theorem eq_iff (h : t'.StandsFor t) (hu : u.isPause = false) : t' = u ↔ t = u := by
  by_cases ht : t = .eof
  · have hno : ∀ v : Token, v.isPause = true → v ≠ u := by
      rintro v hv rfl
      rw [hu] at hv
      cases hv
    exact iff_of_false (hno t' (h.pause ht)) (hno t (by rw [ht]; rfl))
  · rw [h.eq ht]

end StandsFor

end Token

namespace State

variable {s : State} {t : Token} {ts : List Token}

theorem current_of_tokens (h : s.tokens = t :: ts) : s.current.token = t := by
  obtain ⟨x, xs, hrest, rfl, -⟩ := List.map_eq_cons_iff.mp h
  unfold current
  rw [hrest]
  rfl

theorem step_of_tokens (h : s.tokens = t :: ts) : s.step.tokens = ts := by
  obtain ⟨x, xs, hrest, -, rfl⟩ := List.map_eq_cons_iff.mp h
  unfold step tokens
  rw [hrest]

theorem tokens_skipBlankLines (s : State) :
    s.skipBlankLines.tokens = s.tokens.dropWhile (· = .blankLine) := by
  obtain ⟨rest, stop, errors⟩ := s
  show (dropBlankLines rest stop).1.map Lexeme.token = (rest.map Lexeme.token).dropWhile _
  fun_induction dropBlankLines rest stop with
  | case1 => rfl
  | case2 x xs stop hx ih => rw [ih, List.map_cons, List.dropWhile_cons_of_pos (by simpa using hx)]
  | case3 x xs stop hx => rw [List.map_cons, List.dropWhile_cons_of_neg (by simpa using hx)]

end State

theorem EndsAs.isPause {more : Option (List Token)} {tail : List Token} (h : EndsAs more tail)
    {s : State} (hs : s.tokens = tail) : s.current.token.isPause = true := by
  cases more with
  | none =>
    rw [State.current_of_tokens (hs.trans h)]
    rfl
  | some more =>
    obtain ⟨gap, rfl | rfl, rfl⟩ := h
    · rw [State.current_of_tokens hs]
      rfl
    · rw [State.current_of_tokens hs]
      rfl

/-- The blank line that may stand in front can be left out. -/
theorem EndsAs.dropWhile {more : Option (List Token)} {tail : List Token} (h : EndsAs more tail) :
    EndsAs more (tail.dropWhile (· = .blankLine)) := by
  cases more with
  | none =>
    rw [show tail = [.eof] from h]
    rfl
  | some more =>
    obtain ⟨gap, hgap, rfl⟩ := h
    refine ⟨[], Or.inl rfl, ?_⟩
    rcases hgap with rfl | rfl <;> rfl

namespace Ahead

variable {more : Option (List Token)} {s s' : State}

/-- At the end of the first text. -/
theorem endsAs (h : Ahead more s s') (heof : s.current.token = .eof) : EndsAs more s'.tokens := by
  obtain ⟨ts, tail, hts, hs, hs', htail⟩ := h
  cases ts with
  | nil =>
    rw [hs']
    exact htail
  | cons t ts =>
    rw [State.current_of_tokens hs] at heof
    exact absurd heof (hts t List.mem_cons_self)

theorem standsFor (h : Ahead more s s') : s'.current.token.StandsFor s.current.token := by
  refine ⟨fun hne => ?_, fun heof => (h.endsAs heof).isPause rfl⟩
  obtain ⟨ts, tail, hts, hs, hs', htail⟩ := h
  cases ts with
  | nil => exact absurd (State.current_of_tokens hs) hne
  | cons t ts => rw [State.current_of_tokens hs, State.current_of_tokens hs']

theorem step (h : Ahead more s s') (hne : s.current.token ≠ .eof) :
    Ahead more s.step s'.step := by
  obtain ⟨ts, tail, hts, hs, hs', htail⟩ := h
  cases ts with
  | nil => exact absurd (State.current_of_tokens hs) hne
  | cons t ts =>
    exact ⟨ts, tail, fun u hu => hts u (List.mem_cons_of_mem t hu), State.step_of_tokens hs,
      State.step_of_tokens hs', htail⟩

/-- Blank lines are passed in both texts. -/
theorem skipBlankLines (h : Ahead more s s') : Ahead more s.skipBlankLines s'.skipBlankLines := by
  obtain ⟨ts, tail, hts, hs, hs', htail⟩ := h
  have hleft : ∀ t ∈ ts.dropWhile (· = Token.blankLine), t ≠ .eof := fun t ht =>
    hts t ((List.dropWhile_suffix _).subset ht)
  unfold Ahead
  rw [State.tokens_skipBlankLines, State.tokens_skipBlankLines, hs, hs', List.dropWhile_append,
    List.dropWhile_append]
  split
  · exact ⟨[], _, by simp, rfl, rfl, htail.dropWhile⟩
  · exact ⟨_, tail, hleft, rfl, rfl, htail⟩

end Ahead

/-! ## Rules -/

/-- Where the first rule gives a result at `s` without a fault, the second one gives a result with the
    same image under `g` at every state that is related to `s` by `P`. The states after it are related
    by `Q`, and no fault is noted there either. -/
def Rule.CarriesAt {α β : Type} (s : State) (P Q : State → State → Prop) (g : α → β)
    (r r' : Rule α) : Prop :=
  ∀ a t, r s = .ok a t → t.errors = [] → s.errors = [] ∧ ∀ s', P s s' →
    ∃ a' t', r' s' = .ok a' t' ∧ g a' = g a ∧ t'.errors = s'.errors ∧ Q t t'

/-- The same at every state. -/
def Rule.Carries {α β : Type} (P Q : State → State → Prop) (g : α → β) (r r' : Rule α) : Prop :=
  ∀ s : State, r.CarriesAt s P Q g r'

namespace Rule

variable {α β γ δ : Type} {P Q Q' : State → State → Prop} {g : α → γ} {k : β → δ} {s : State}
  {more : Option (List Token)}

theorem CarriesAt.bind {r r' : Rule α} {f f' : α → Rule β} (hr : r.CarriesAt s P Q g r')
    (hf : ∀ a a', g a' = g a → (f a).Carries Q Q' k (f' a')) :
    (r >>= f).CarriesAt s P Q' k (r' >>= f') := by
  intro b u hu hnone
  obtain ⟨a, t, hrs, hft⟩ := bind_eq_ok.mp hu
  obtain ⟨hs, hcarry⟩ := hr a t hrs (hf a a rfl t b u hft hnone).1
  refine ⟨hs, fun s' hss' => ?_⟩
  obtain ⟨a', t', hrs', ha, herrors, htt'⟩ := hcarry s' hss'
  obtain ⟨b', u', hft', hb, herrors', huu'⟩ := (hf a a' ha t b u hft hnone).2 t' htt'
  exact ⟨b', u', bind_eq_ok.mpr ⟨a', t', hrs', hft'⟩, hb, herrors'.trans herrors, huu'⟩

theorem Carries.bind {r r' : Rule α} {f f' : α → Rule β} (hr : r.Carries P Q g r')
    (hf : ∀ a a', g a' = g a → (f a).Carries Q Q' k (f' a')) :
    (r >>= f).Carries P Q' k (r' >>= f') :=
  fun s => (hr s).bind hf

theorem carries_pure {a a' : α} (h : g a' = g a) : (pure a : Rule α).Carries P P g (pure a') := by
  intro s b t ht hnone
  rw [pure_apply] at ht
  cases ht
  exact ⟨hnone, fun s' hss' => ⟨a', s', rfl, h, rfl, hss'⟩⟩

theorem CarriesAt.mono {r r' : Rule α} (h : r.CarriesAt s P Q g r') (hQ : ∀ t t', Q t t' → Q' t t') :
    r.CarriesAt s P Q' g r' := by
  intro a t ht hnone
  obtain ⟨hs, hcarry⟩ := h a t ht hnone
  refine ⟨hs, fun s' hss' => ?_⟩
  obtain ⟨a', t', ht', ha, herrors, htt'⟩ := hcarry s' hss'
  exact ⟨a', t', ht', ha, herrors, hQ t t' htt'⟩

theorem carries_fail (fault : Fault) (span : Span) (r' : Rule α) :
    (fail fault span : Rule α).Carries P Q g r' := fun _ _ _ h => nomatch h

theorem carries_starve (r' : Rule α) : (starve : Rule α).Carries P Q g r' := fun _ _ _ h => nomatch h

/-- What is read may depend on the token in front. -/
theorem carriesAt_look {f f' : Lexeme → Rule β}
    (h : ∀ x' : Lexeme, x'.token.StandsFor s.current.token →
      (f s.current).CarriesAt s (Ahead more) Q k (f' x')) :
    (look >>= f).CarriesAt s (Ahead more) Q k (look >>= f') := by
  intro b u hu hnone
  rw [look_bind] at hu
  obtain ⟨hs, -⟩ := h s.current ⟨fun _ => rfl, fun heof => by rw [heof]; rfl⟩ b u hu hnone
  refine ⟨hs, fun s' hss' => ?_⟩
  exact (h s'.current hss'.standsFor b u hu hnone).2 s' hss'

theorem carries_look {f f' : Lexeme → Rule β}
    (h : ∀ (s : State) (x' : Lexeme), x'.token.StandsFor s.current.token →
      (f s.current).CarriesAt s (Ahead more) Q k (f' x')) :
    (look >>= f).Carries (Ahead more) Q k (look >>= f') :=
  fun s => carriesAt_look (h s)

/-- A token other than the end of the text is taken in both texts. -/
theorem carriesAt_step {r r' : Rule α} {a : State → α} (hne : s.current.token ≠ .eof)
    (hr : r s = .ok (a s) s.step) (hr' : ∀ s' : State, s'.current.token = s.current.token →
      r' s' = .ok (a s') s'.step ∧ g (a s') = g (a s)) :
    r.CarriesAt s (Ahead more) (Ahead more) g r' := by
  intro b t ht hnone
  rw [hr] at ht
  cases ht
  rw [State.errors_step] at hnone
  refine ⟨hnone, fun s' hss' => ?_⟩
  obtain ⟨hread, ha⟩ := hr' s' (hss'.standsFor.eq hne)
  exact ⟨_, _, hread, ha, State.errors_step s', hss'.step hne⟩

theorem carriesAt_take {f f' : Lexeme → Rule β} (hne : s.current.token ≠ .eof)
    (hf : ∀ x' : Lexeme, x'.token = s.current.token →
      (f s.current).Carries (Ahead more) Q k (f' x')) :
    (take >>= f).CarriesAt s (Ahead more) Q k (take >>= f') := by
  intro b u hu hnone
  rw [take_bind] at hu
  have hs := (hf s.current rfl s.step b u hu hnone).1
  rw [State.errors_step] at hs
  refine ⟨hs, fun s' hss' => ?_⟩
  rw [take_bind, ← State.errors_step s']
  exact (hf s'.current (hss'.standsFor.eq hne) s.step b u hu hnone).2 s'.step (hss'.step hne)

theorem skipBlankLines_carries :
    skipBlankLines.Carries (Ahead more) (Ahead more) (fun _ => ()) skipBlankLines := by
  intro s _ t ht hnone
  cases ht
  exact ⟨hnone, fun s' hss' => ⟨_, _, rfl, rfl, rfl, hss'.skipBlankLines⟩⟩

theorem expect_carries {x : Token} (hx : x.isPause = false) :
    (expect x).Carries (Ahead more) (Ahead more) (fun _ => ()) (expect x) := by
  intro s
  by_cases hcur : s.currentIs x
  · have hkind := State.kind_eq_of_currentIs hcur
    have hne : s.current.token ≠ .eof := by
      intro heof
      rw [heof] at hkind
      rw [← Token.isPause_kind, ← hkind] at hx
      cases hx
    refine carriesAt_step (a := fun s => s.current.span) hne (by unfold expect; rw [if_pos hcur]) ?_
    intro s' hs'
    have hcur' : s'.currentIs x := by simpa [State.currentIs, hs'] using hkind
    exact ⟨by unfold expect; rw [if_pos hcur'], rfl⟩
  · intro _ t ht
    unfold expect at ht
    rw [if_neg hcur] at ht
    cases ht

/-- The semicolon that ends the last statement may stand in the second text alone. -/
theorem skipOptional_carries : (skipOptional .semicolon).Carries (Ahead more) (After more)
    (fun _ => ()) (skipOptional .semicolon) := by
  intro s _ t ht hnone
  unfold skipOptional at ht
  by_cases hsemi : s.currentIs .semicolon
  · rw [if_pos hsemi] at ht
    cases ht
    have htoken : s.current.token = .semicolon :=
      Token.eq_of_kind rfl (State.kind_eq_of_currentIs hsemi)
    have hne : s.current.token ≠ .eof := by simp [htoken]
    rw [State.errors_step] at hnone
    refine ⟨hnone, fun s' hss' => ⟨(), s'.step, ?_, rfl, State.errors_step s', ?_⟩⟩
    · have hsemi' : s'.currentIs .semicolon := by
        simp [State.currentIs, hss'.standsFor.eq hne, htoken]
      unfold skipOptional
      rw [if_pos hsemi']
    · exact Or.inl (hss'.step hne)
  · rw [if_neg hsemi] at ht
    cases ht
    refine ⟨hnone, fun s' hss' => ⟨(), _, rfl, rfl, ?_, ?_⟩⟩
    · split
      · exact State.errors_step s'
      · rfl
    · split
      · next hsemi' =>
        -- only at the end of the first text is there a semicolon in the second one alone
        have heof : s.current.token = .eof := by
          by_cases hne : s.current.token = .eof
          · exact hne
          · rw [State.currentIs, hss'.standsFor.eq hne] at hsemi'
            exact absurd hsemi' hsemi
        have htoken : s'.current.token = .semicolon :=
          Token.eq_of_kind rfl (State.kind_eq_of_currentIs hsemi')
        refine Or.inr ⟨heof, ?_⟩
        have hends := hss'.endsAs heof
        cases more with
        | none =>
          rw [State.current_of_tokens hends] at htoken
          cases htoken
        | some more =>
          obtain ⟨gap, rfl | rfl, hends⟩ := hends
          · rw [State.step_of_tokens hends]
          · rw [State.current_of_tokens hends] at htoken
            cases htoken
      · exact Or.inl hss'

/-! ### Lists -/

theorem moreItems_carries {item : Rule α} (hi : item.Carries (Ahead more) (Ahead more) g item)
    (b : Nat) :
    (moreItems item b).Carries (Ahead more) (Ahead more) (List.map g) (moreItems item b) := by
  induction b with
  | zero => exact carries_starve _
  | succ b ih =>
    unfold moreItems
    refine skipBlankLines_carries.bind fun _ _ _ => carries_look fun s x' hx' => ?_
    have hcomma := hx'.eq_iff (u := .comma) rfl
    split
    · next hc =>
      rw [if_pos (hcomma.mpr hc)]
      refine carriesAt_take (by simp [hc]) fun _ _ => ?_
      refine skipBlankLines_carries.bind fun _ _ _ => hi.bind fun first first' hfirst => ?_
      refine ih.bind fun others others' hothers => carries_pure ?_
      rw [List.map_cons, List.map_cons, hfirst, hothers]
    · next hc =>
      rw [if_neg (mt hcomma.mp hc)]
      exact carries_pure rfl s

theorem listOf_carries {item : Rule α} (hi : item.Carries (Ahead more) (Ahead more) g item)
    {close : Token} (hclose : close.isPause = false) (b : Nat) :
    (listOf close item b).Carries (Ahead more) (Ahead more) (fun p => p.1.map g)
      (listOf close item b) := by
  unfold listOf
  refine skipBlankLines_carries.bind fun _ _ _ => carries_look fun s x' hx' => ?_
  have hkind := hx'.kind_iff hclose
  split
  · next hc =>
    rw [if_pos (hkind.mpr hc)]
    refine (expect_carries hclose).bind (fun _ _ _ => ?_) s
    exact carries_pure rfl
  · next hc =>
    rw [if_neg (mt hkind.mp hc)]
    refine hi.bind (fun first first' hfirst => ?_) s
    refine (moreItems_carries hi b).bind fun others others' hothers => ?_
    refine (expect_carries hclose).bind fun _ _ _ => carries_pure ?_
    show (first' :: others').map g = (first :: others).map g
    rw [List.map_cons, List.map_cons, hfirst, hothers]

end Rule

/-! ## The rules of the language -/

namespace Grammar

open Rule

/-- A rule that is carried from a text to another place. -/
abbrev Carried {α β : Type} (more : Option (List Token)) (g : α → β) (r r' : Rule α) : Prop :=
  r.Carries (Ahead more) (Ahead more) g r'

section Parts

variable {expr : ExprRule} {block : Rule Block} {s : State} {more : Option (List Token)}

theorem name_carried : Carried more Ident.normal name name := by
  refine carries_look fun s x' hx' => ?_
  split
  · next text htext =>
    rw [hx'.eq (by simp [htext]), htext]
    exact carriesAt_take (by simp [htext]) fun _ _ => carries_pure rfl
  · exact carries_fail _ _ _ s

theorem integer_carried {text : String} (hx : s.current.token = .int text) :
    integer.CarriesAt s (Ahead more) (Ahead more) Expr.normal integer := by
  refine carriesAt_take (by simp [hx]) fun x' hx' => ?_
  rw [hx', hx]
  split
  · exact carries_pure rfl
  · exact carries_fail _ _ _

theorem float_carried {text : String} (hx : s.current.token = .float text) :
    float.CarriesAt s (Ahead more) (Ahead more) Expr.normal float := by
  refine carriesAt_take (by simp [hx]) fun x' hx' => ?_
  rw [hx', hx]
  split
  · exact carries_pure rfl
  · exact carries_fail _ _ _

theorem boolean_carried (hne : s.current.token ≠ .eof) :
    boolean.CarriesAt s (Ahead more) (Ahead more) Expr.normal boolean :=
  carriesAt_take hne fun x' hx' => carries_pure (by rw [hx']; rfl)

theorem string_carried (hne : s.current.token ≠ .eof) :
    string.CarriesAt s (Ahead more) (Ahead more) Expr.normal string :=
  carriesAt_take hne fun x' hx' => carries_pure (by rw [hx']; rfl)

variable (he : ∀ l, Carried more Expr.normal (expr l) (expr l))
  (hb : Carried more Block.normal block block)

include he

theorem array_carried (b : Nat) : Carried more Expr.normal (array expr b) (array expr b) := by
  unfold array
  refine (expect_carries rfl).bind fun _ _ _ => (listOf_carries (he _) rfl b).bind fun p p' hp => ?_
  exact carries_pure (by simp [Expr.normal, Expr.normalList_eq, hp])

theorem entry_carried : Carried more Entry.normal (entry expr) (entry expr) := by
  unfold entry
  refine (he _).bind fun key key' hkey => skipBlankLines_carries.bind fun _ _ _ => ?_
  refine (expect_carries rfl).bind fun _ _ _ => (he _).bind fun value value' hvalue => ?_
  exact carries_pure (by simp [Entry.normal, hkey, hvalue])

theorem hash_carried (b : Nat) : Carried more Expr.normal (hash expr b) (hash expr b) := by
  unfold hash
  refine (expect_carries rfl).bind fun _ _ _ => ?_
  refine (listOf_carries (entry_carried he) rfl b).bind fun p p' hp => ?_
  exact carries_pure (by simp [Expr.normal, Entry.normalList_eq, hp])

theorem unary_carried (hne : s.current.token ≠ .eof) :
    (unary expr).CarriesAt s (Ahead more) (Ahead more) Expr.normal (unary expr) := by
  refine carriesAt_take hne fun x' hx' => ?_
  rw [hx']
  split
  · refine (he _).bind fun operand operand' hoperand => carries_pure ?_
    simp [Expr.normal, hoperand]
  · exact carries_fail _ _ _

theorem group_carried (hne : s.current.token ≠ .eof) :
    (group expr).CarriesAt s (Ahead more) (Ahead more) Expr.normal (group expr) := by
  refine carriesAt_take hne fun _ _ => (he _).bind fun inner inner' hinner => ?_
  refine skipBlankLines_carries.bind fun _ _ _ => (expect_carries rfl).bind fun _ _ _ => ?_
  exact carries_pure hinner

include hb

theorem cond_carried : Carried more Expr.normal (cond expr block) (cond expr block) := by
  unfold cond
  refine (expect_carries rfl).bind fun _ _ _ => (he _).bind fun condition condition' hcond => ?_
  refine hb.bind fun consequence consequence' hcons => carries_look fun s x' hx' => ?_
  have helse := hx'.eq_iff (u := .kwElse) rfl
  split
  · next hc =>
    rw [if_pos (helse.mpr hc)]
    refine carriesAt_take (by simp [hc]) fun _ _ => hb.bind fun alternative alternative' halt => ?_
    exact carries_pure (by simp [Expr.normal, Block.normalOption, hcond, hcons, halt])
  · next hc =>
    rw [if_neg (mt helse.mp hc)]
    exact carries_pure (by simp [Expr.normal, Block.normalOption, hcond, hcons]) s

theorem loop_carried : Carried more Expr.normal (loop expr block) (loop expr block) := by
  unfold loop
  refine (expect_carries rfl).bind fun _ _ _ => (he _).bind fun condition condition' hcond => ?_
  exact hb.bind fun body body' hbody => carries_pure (by simp [Expr.normal, hcond, hbody])

omit he in
theorem func_carried (b : Nat) : Carried more Expr.normal (func block b) (func block b) := by
  unfold func
  refine (expect_carries rfl).bind fun _ _ _ => (expect_carries rfl).bind fun _ _ _ => ?_
  refine (listOf_carries name_carried rfl b).bind fun p p' hp => hb.bind fun body body' hbody => ?_
  exact carries_pure (by simp [Expr.normal, hp, hbody])

theorem operand_carried (b : Nat) :
    Carried more Expr.normal (operand expr block b) (operand expr block b) := by
  refine carries_look fun s x' hx' => ?_
  by_cases hne : s.current.token = .eof
  · rw [hne]
    exact carries_fail _ _ _ s
  rw [hx'.eq hne]
  split
  case h_1 => exact name_carried.bind (fun n n' hn => carries_pure (by simp [Expr.normal, hn])) s
  case h_2 hx => exact integer_carried hx
  case h_3 hx => exact float_carried hx
  case h_4 | h_5 => exact boolean_carried hne
  case h_6 => exact string_carried hne
  case h_7 | h_8 => exact unary_carried he hne
  case h_9 => exact array_carried he b s
  case h_10 => exact hash_carried he b s
  case h_11 => exact cond_carried he hb s
  case h_12 => exact loop_carried he hb s
  case h_13 => exact func_carried hb b s
  case h_14 => exact group_carried he hne
  case h_15 => exact carries_fail _ _ _ s

omit hb

section Continuations

variable {left left' : Expr} (hleft : left'.normal = left.normal)

include hleft

theorem call_carried (b : Nat) :
    Carried more Expr.normal (call expr b left) (call expr b left') := by
  unfold call
  refine (expect_carries rfl).bind fun _ _ _ => (listOf_carries (he _) rfl b).bind fun p p' hp => ?_
  exact carries_pure (by simp [Expr.normal, Expr.normalList_eq, hleft, hp])

theorem index_carried : Carried more Expr.normal (index expr left) (index expr left') := by
  unfold index
  refine (expect_carries rfl).bind fun _ _ _ => (he _).bind fun position position' hposition => ?_
  refine skipBlankLines_carries.bind fun _ _ _ => (expect_carries rfl).bind fun _ _ _ => ?_
  exact carries_pure (by simp [Expr.normal, hleft, hposition])

theorem binary_carried (hne : s.current.token ≠ .eof) :
    (binary expr left).CarriesAt s (Ahead more) (Ahead more) Expr.normal (binary expr left') := by
  refine carriesAt_take hne fun x' hx' => ?_
  rw [hx']
  split
  · refine (he _).bind fun right right' hright => carries_pure ?_
    simp [Expr.normal, hleft, hright]
  · exact carries_fail _ _ _

theorem continuation_carried (b : Nat) (hne : s.current.token ≠ .eof) :
    (continuation expr b left).CarriesAt s (Ahead more) (Ahead more) Expr.normal
      (continuation expr b left') := by
  refine carriesAt_look fun x' hx' => ?_
  rw [hx'.eq hne]
  split
  · exact call_carried he hleft b s
  · exact index_carried he hleft s
  · exact binary_carried he hleft hne

end Continuations

include hb

/-- A statement in front of the end of the first text may take the semicolon of the second one. -/
theorem statement_carried (hne : s.current.token ≠ .eof) :
    (statement expr block).CarriesAt s (Ahead more) (After more) Stmt.normal
      (statement expr block) := by
  have hafter : ∀ t t', Ahead more t t' → After more t t' := fun _ _ => Or.inl
  refine carriesAt_look fun x' hx' => ?_
  rw [hx'.eq hne]
  split
  · refine CarriesAt.mono (carriesAt_take hne fun _ _ => ?_) hafter
    exact carries_pure rfl
  · unfold letStatement
    refine (expect_carries rfl).bind (fun _ _ _ => name_carried.bind fun bound bound' hbound => ?_) s
    refine (expect_carries rfl).bind fun _ _ _ => (he _).bind fun value value' hvalue => ?_
    refine skipOptional_carries.bind fun _ _ _ => carries_pure ?_
    simp [Stmt.normal, hbound, hvalue]
  · unfold returnStatement
    refine (expect_carries rfl).bind (fun _ _ _ => (he _).bind fun value value' hvalue => ?_) s
    refine skipOptional_carries.bind fun _ _ _ => carries_pure ?_
    simp [Stmt.normal, hvalue]
  · refine (hb.bind (fun body body' hbody => ?_) s).mono hafter
    exact carries_pure (by simp [Stmt.normal, hbody])
  · unfold expressionStatement
    refine (he _).bind (fun value value' hvalue => ?_) s
    refine skipOptional_carries.bind fun _ _ _ => carries_pure ?_
    simp [Stmt.normal, hvalue]

end Parts

/-! ### The recursive rules -/

/-- The rule reads the statements of a block. It is carried where it comes to the closing brace, and
    not to the end of the text. -/
def CarriedToBrace (more : Option (List Token)) (r : Rule (List Stmt)) : Prop :=
  ∀ s ss t, r s = .ok ss t → t.errors = [] → s.errors = [] ∧ (t.current.token ≠ .eof →
    ∀ s', Ahead more s s' → ∃ ss' t', r s' = .ok ss' t' ∧ ss'.map Stmt.normal = ss.map Stmt.normal ∧
      t'.errors = s'.errors ∧ Ahead more t t')

/-- The rules with budget `b` are carried. -/
structure RulesCarry (more : Option (List Token)) (b : Nat) : Prop where
  expression : ∀ level, Carried more Expr.normal (expression b level) (expression b level)
  operators : ∀ level left left', left'.normal = left.normal →
    Carried more Expr.normal (operators b level left) (operators b level left')
  block : Carried more Block.normal (block b) (block b)
  statements : CarriedToBrace more (statements b true)

section Recursive

variable {more : Option (List Token)} {b : Nat}

theorem operators_succ_carried (h : RulesCarry more b) (level : Precedence) {left left' : Expr}
    (hleft : left'.normal = left.normal) :
    Carried more Expr.normal (operators (b + 1) level left) (operators (b + 1) level left') := by
  unfold operators
  refine carries_look fun s x' hx' => ?_
  rw [hx'.precedence]
  split
  · next hrank =>
    have hne : s.current.token ≠ .eof := by
      intro heof
      rw [heof] at hrank
      exact absurd hrank (Nat.not_lt_zero _)
    exact (continuation_carried h.expression hleft b hne).bind fun wider wider' hwider =>
      h.operators level wider wider' hwider
  · exact carries_pure hleft s

/-- A block ends at its brace. -/
theorem block_succ_carried (h : RulesCarry more b) :
    Carried more Block.normal (block (b + 1)) (block (b + 1)) := by
  unfold block
  refine (expect_carries rfl).bind fun opening opening' _ => ?_
  intro s body u hu hnone
  obtain ⟨ss, t, hread, hclose⟩ := bind_eq_ok.mp hu
  have hrest : ∀ ss', ss'.map Stmt.normal = ss.map Stmt.normal → Carried more Block.normal
      (do
        let closing ← expect .rightBrace
        pure (⟨ss, ⟨opening.start, closing.stop⟩⟩ : Block))
      (do
        let closing ← expect .rightBrace
        pure (⟨ss', ⟨opening'.start, closing.stop⟩⟩ : Block)) := by
    intro ss' hss'
    refine (expect_carries rfl).bind fun _ _ _ => carries_pure ?_
    simp [Block.normal, Stmt.normalList_eq, hss']
  have hne : t.current.token ≠ .eof := by
    intro heof
    obtain ⟨closing, v, hbrace, -⟩ := bind_eq_ok.mp hclose
    have hno : ¬ t.currentIs .rightBrace := by simp [State.currentIs, heof, Token.kind]
    rw [expect, if_neg hno] at hbrace
    cases hbrace
  obtain ⟨hs, hcarry⟩ := h.statements s ss t hread (hrest ss rfl t body u hclose hnone).1
  refine ⟨hs, fun s' hss' => ?_⟩
  obtain ⟨ss', t', hread', hsame, herrors, htt'⟩ := hcarry hne s' hss'
  obtain ⟨body', u', hclose', hbody, herrors', huu'⟩ :=
    (hrest ss' hsame t body u hclose hnone).2 t' htt'
  exact ⟨body', u', bind_eq_ok.mpr ⟨ss', t', hread', hclose'⟩, hbody, herrors'.trans herrors, huu'⟩

/-- At the end of a text there are no more statements. -/
theorem eq_of_statements_eof {inBlock : Bool} {t u : State} {ss : List Stmt}
    (h : statements b inBlock t = .ok ss u) (heof : t.current.token = .eof) : u = t := by
  cases b with
  | zero => cases h
  | succ b =>
    unfold statements at h
    rw [heof, if_pos (show endsStatements inBlock .eof = true from rfl)] at h
    cases h
    rfl

/-- Outside of blank lines and semicolons a statement is read, and then others. -/
theorem statements_succ_of_first {inBlock : Bool} {s t u : State} {first : Stmt} {others : List Stmt}
    (hends : ¬ endsStatements inBlock s.current.token = true) (hsemi : s.current.token ≠ .semicolon)
    (hfirst : statement (expression b) (Grammar.block b) s = .ok first t)
    (hothers : statements b inBlock t = .ok others u) :
    statements (b + 1) inBlock s = .ok (first :: others) u := by
  unfold statements
  rw [if_neg hends, if_neg hsemi, hfirst]
  exact bind_eq_ok.mpr ⟨others, u, hothers, rfl⟩

theorem statements_succ_carried (h : RulesCarry more b) :
    CarriedToBrace more (statements (b + 1) true) := by
  intro s ss u hu hnone
  unfold statements at hu
  split at hu
  · next hends =>
    cases hu
    refine ⟨hnone, fun hne s' hss' => ⟨[], s', ?_, rfl, rfl, hss'⟩⟩
    unfold statements
    rw [hss'.standsFor.eq hne, if_pos hends]
  split at hu
  · next hends hsemi =>
    have hne : s.current.token ≠ .eof := by simp [hsemi]
    obtain ⟨hs, hcarry⟩ := h.statements _ ss u hu hnone
    rw [State.errors_step] at hs
    refine ⟨hs, fun hu s' hss' => ?_⟩
    obtain ⟨ss', u', hu', hss, herrors, huu'⟩ := hcarry hu _ (hss'.step hne)
    rw [State.errors_step] at herrors
    refine ⟨ss', u', ?_, hss, herrors, huu'⟩
    unfold statements
    rw [hss'.standsFor.eq hne, if_neg hends, if_pos hsemi, hu']
  · next hends hsemi =>
    have hne : s.current.token ≠ .eof := by
      intro heof
      rw [heof] at hends
      exact hends rfl
    cases hst : statement (expression b) (Grammar.block b) s with
    | ok first t =>
      rw [hst] at hu
      obtain ⟨others, v, hothers, hend⟩ := bind_eq_ok.mp hu
      cases hend
      obtain ⟨ht, hcarry⟩ := h.statements t others u hothers hnone
      obtain ⟨hs, hfirst⟩ := statement_carried h.expression h.block hne first t hst ht
      refine ⟨hs, fun hu s' hss' => ?_⟩
      obtain ⟨first', t', hst', hsame, herrors, htt'⟩ := hfirst s' hss'
      have htoken := hss'.standsFor.eq hne
      rcases htt' with htt' | ⟨heof, -⟩
      · obtain ⟨others', u', hothers', hsame', herrors', huu'⟩ := hcarry hu t' htt'
        refine ⟨first' :: others', u', ?_, ?_, herrors'.trans herrors, huu'⟩
        · exact statements_succ_of_first (by rwa [htoken]) (by rwa [htoken]) hst' hothers'
        · rw [List.map_cons, List.map_cons, hsame, hsame']
      · -- the text ends after the statement, and so does the list of statements
        rw [eq_of_statements_eof hothers heof] at hu
        exact absurd heof hu
    | error e t =>
      -- a fault that is noted stays noted
      rw [hst] at hu
      have hnil := (h.statements _ ss u hu hnone).1
      have hmem : e ∈ ((t.note e).recover true).errors :=
        List.mem_append_right t.errors List.mem_cons_self
      rw [hnil] at hmem
      cases hmem
    | starved =>
      rw [hst] at hu
      cases hu

theorem rules_carry (more : Option (List Token)) (b : Nat) : RulesCarry more b := by
  induction b with
  | zero =>
    exact ⟨fun _ => carries_starve _, fun _ _ _ _ => carries_starve _, carries_starve _,
      fun _ _ _ h => nomatch h⟩
  | succ b ih =>
    refine ⟨fun level => ?_, fun level _ _ hleft => operators_succ_carried ih level hleft,
      block_succ_carried ih, statements_succ_carried ih⟩
    unfold expression
    refine skipBlankLines_carries.bind fun _ _ _ => ?_
    exact (operand_carried ih.expression ih.block b).bind fun left left' hleft =>
      ih.operators level left left' hleft

end Recursive

/-! ### Without budgets -/

section Settled

variable {more : Option (List Token)}

/-- A rule that every large budget settles is carried if it is with every budget. -/
theorem carried_of_settled {α β : Type} {g : α → β} {r : Nat → Rule α} {q : Rule α}
    (hr : ∀ b, Carried more g (r b) (r b))
    (hq : ∀ b s, budgetFor s.rest.length ≤ b → r b s = q s) : Carried more g q q := by
  intro s a t ht hnone
  have hread : ∀ b, budgetFor s.rest.length ≤ b → r b s = .ok a t := fun b hb => by rw [hq b s hb, ht]
  refine ⟨(hr _ s a t (hread _ (Nat.le_refl _)) hnone).1, fun s' hss' => ?_⟩
  -- the two states may have different numbers of lexemes left, and so different budgets
  have hboth := (hr _ s a t (hread _ (Nat.le_max_left _ (budgetFor s'.rest.length))) hnone).2 s' hss'
  rwa [hq _ s' (Nat.le_max_right _ _)] at hboth

theorem readExpression_carried (level : Precedence) :
    Carried more Expr.normal (readExpression level) (readExpression level) :=
  carried_of_settled (fun b => (rules_carry more b).expression level)
    fun _ _ hb => expression_of_le hb level

theorem readBlock_carried : Carried more Block.normal readBlock readBlock :=
  carried_of_settled (fun b => (rules_carry more b).block) fun _ _ hb => block_of_le hb

/-- Where no fault is noted in the end, none was noted before. -/
theorem errors_of_readStatements {s t : State} {ss : List Stmt}
    (h : readStatements false s = .ok ss t) (hnone : t.errors = []) : s.errors = [] := by
  have hleads := readStatements_total (s.rest.length + 1) false s (Nat.lt_succ_self _)
  unfold LeadsAt at hleads
  rw [h] at hleads
  obtain ⟨-, -, -, -, -, hprefix⟩ := hleads
  rwa [hnone, List.prefix_nil] at hprefix

/-- The statements of a text that is read without a fault are read wherever its tokens stand. The
    second reading comes to what stands where the first text ends, or past the semicolon there. -/
theorem statements_carried {s s' t : State} {ss : List Stmt} (hss' : Ahead more s s')
    (h : readStatements false s = .ok ss t) (hnone : t.errors = []) :
    ∃ ss' t', Begins false s' ss' t' ∧ ss'.map Stmt.normal = ss.map Stmt.normal ∧ t'.errors = s'.errors ∧
      (EndsAs more t'.tokens ∨ more = some t'.tokens) := by
  induction s using statements_induction false generalizing s' ss with
  | ends s hends =>
    have heof : s.current.token = .eof := by
      cases hc : s.current.token <;> simp_all [endsStatements]
    rw [readStatements_end hends] at h
    cases h
    exact ⟨[], s', Begins.refl s', rfl, rfl, Or.inl (hss'.endsAs heof)⟩
  | semicolon s hsemi ih =>
    have hne : s.current.token ≠ .eof := by simp [hsemi]
    rw [readStatements_semicolon hsemi] at h
    obtain ⟨ss', t', hbegins, hss, herrors, hends⟩ := ih (hss'.step hne) h
    rw [State.errors_step] at herrors
    exact ⟨ss', t', hbegins.semicolon (by rw [hss'.standsFor.eq hne, hsemi]), hss, herrors, hends⟩
  | first s a u hends hsemi hr _ ih =>
    have hne : s.current.token ≠ .eof := by
      intro heof
      rw [heof] at hends
      cases hends
    have htoken := hss'.standsFor.eq hne
    rw [readStatements_first hends hsemi hr] at h
    obtain ⟨others, v, hothers, hend⟩ := bind_eq_ok.mp h
    cases hend
    obtain ⟨-, hcarry⟩ := statement_carried readExpression_carried readBlock_carried hne a u hr
      (errors_of_readStatements hothers hnone)
    obtain ⟨a', u', hr', ha, herrors, huu'⟩ := hcarry s' hss'
    have hfirst : ∀ {ss' t'}, Begins false u' ss' t' → Begins false s' (a' :: ss') t' :=
      Begins.first (by rwa [htoken]) (by rwa [htoken]) hr'
    rcases huu' with huu' | ⟨heof, hpast⟩
    · obtain ⟨ss', t', hbegins, hss, herrors', hends⟩ := ih huu' hothers
      refine ⟨a' :: ss', t', hfirst hbegins, ?_, herrors'.trans herrors, hends⟩
      rw [List.map_cons, List.map_cons, ha, hss]
    · rw [readStatements_end (by rw [heof]; rfl)] at hothers
      cases hothers
      refine ⟨[a'], u', hfirst (Begins.refl u'), ?_, herrors, Or.inr hpast⟩
      rw [List.map_cons, List.map_cons, ha]
  | broken s e u hends hsemi hr _ ih =>
    -- a fault that is noted stays noted
    rw [readStatements_broken hends hsemi hr] at h
    have hmem : e ∈ ((u.note e).recover false).errors :=
      List.mem_append_right u.errors List.mem_cons_self
    rw [errors_of_readStatements h hnone] at hmem
    cases hmem

end Settled

/-! ## Two texts -/

/-- A blank line that stands in front is a statement of its own. -/
theorem begins_gap {s : State} {gap ts : List Token} (hgap : IsGap gap) (h : s.tokens = gap ++ ts) :
    ∃ blanks t, Begins false s blanks t ∧ (∀ st ∈ blanks, st.isBlank = true) ∧ t.errors = s.errors ∧
      t.tokens = ts := by
  rcases hgap with rfl | rfl
  · exact ⟨[], s, Begins.refl s, by simp, rfl, h⟩
  · have hblank : s.current.token = .blankLine := State.current_of_tokens h
    refine ⟨[.blank s.current.span], s.step, ?_, by simp [Stmt.isBlank], State.errors_step s,
      State.step_of_tokens h⟩
    exact (Begins.refl s.step).first (by rw [hblank]; rfl) (by simp [hblank]) (statement_blank hblank)

/-- Up to the semicolon and past it there are at most blank lines. -/
theorem begins_past_semicolon {more : List Token} {s : State}
    (h : EndsAs (some more) s.tokens ∨ some more = some s.tokens) :
    ∃ blanks t, Begins false s blanks t ∧ (∀ st ∈ blanks, st.isBlank = true) ∧ t.errors = s.errors ∧
      t.tokens = more := by
  rcases h with ⟨gap, hgap, htokens⟩ | hmore
  · obtain ⟨blanks, t, hbegins, hblank, herrors, ht⟩ := begins_gap hgap htokens
    refine ⟨blanks, t.step, ?_, hblank, (State.errors_step t).trans herrors, State.step_of_tokens ht⟩
    have hsemi : Begins false t [] t.step :=
      (Begins.refl t.step).semicolon (State.current_of_tokens ht)
    rw [← List.append_nil blanks]
    exact hbegins.trans hsemi
  · exact ⟨[], s, Begins.refl s, by simp, rfl, (Option.some.inj hmore).symm⟩

/-- The statements and the faults of a text. -/
theorem readStatements_parse (source : String) :
    ∃ t, readStatements false (.ofLexemes (tokenize source)) =
        .ok (parse source).program.statements t ∧
      t.errors = (parse source).errors := by
  obtain ⟨ss, t, hread, -⟩ := readStatements_ok false (.ofLexemes (tokenize source))
  unfold parse
  rw [parseLexemes_eq hread]
  exact ⟨t, hread, rfl⟩

/-- Two texts without faults, of which the first does not end in an open string, can be joined by a
    semicolon on a line of its own. The whole has no faults either, and its statements are those of the
    two parts, but for their places and for blank lines between them. -/
theorem parse_joined {a b : String} (ha : (parse a).errors = []) (hb : (parse b).errors = [])
    (hopen : endsInString a = false) :
    (parse (a ++ "\n;\n" ++ b)).errors = [] ∧
      ∃ blanks : List Stmt, (∀ st ∈ blanks, st.isBlank = true) ∧
        (parse (a ++ "\n;\n" ++ b)).program.statements.map Stmt.normal =
          ((parse a).program.statements ++ blanks ++ (parse b).program.statements).map
            Stmt.normal := by
  obtain ⟨ts, gap, gap', hgap, hgap', hts, htokens, hjoined⟩ := tokenize_joined hopen b
  obtain ⟨t, hreadA, herrorsA⟩ := readStatements_parse a
  obtain ⟨u, hreadB, herrorsB⟩ := readStatements_parse b
  -- the first text, up to its end, and what joins it to the second one
  have haheadA : Ahead (some (gap' ++ (tokenize b).map Lexeme.token)) (.ofLexemes (tokenize a))
      (.ofLexemes (tokenize (a ++ "\n;\n" ++ b))) := by
    refine ⟨ts, _, hts, htokens, ?_, gap, hgap, rfl⟩
    rw [← List.append_assoc]
    exact hjoined
  obtain ⟨ssA, t₁, hbegins₁, hssA, herrors₁, hends₁⟩ :=
    statements_carried haheadA hreadA (herrorsA.trans ha)
  obtain ⟨blanks, t₂, hbegins₂, hblanks, herrors₂, htokens₂⟩ := begins_past_semicolon hends₁
  obtain ⟨blanks', t₃, hbegins₃, hblanks', herrors₃, htokens₃⟩ := begins_gap hgap' htokens₂
  -- the second text, which ends where the whole ends
  obtain ⟨xs, last, hxs, hlast, hne⟩ := (Lexer.ofChars b.toList).lexemes_end
  have htokensB : (tokenize b).map Lexeme.token = xs.map Lexeme.token ++ [.eof] := by
    rw [← hlast, show tokenize b = xs ++ [last] from hxs, List.map_append]
    rfl
  have haheadB : Ahead none (.ofLexemes (tokenize b)) t₃ :=
    ⟨xs.map Lexeme.token, [.eof], by simpa using hne, htokensB, htokens₃.trans htokensB, rfl⟩
  obtain ⟨ssB, t₄, hbegins₄, hssB, herrors₄, hends₄⟩ :=
    statements_carried haheadB hreadB (herrorsB.trans hb)
  have heof : t₄.current.token = .eof := by
    rcases hends₄ with hends₄ | hends₄
    · exact State.current_of_tokens hends₄
    · cases hends₄
  have hread := ((hbegins₁.trans hbegins₂).trans hbegins₃).trans hbegins₄ [] t₄
    (readStatements_end (by rw [heof]; rfl))
  have herrors : t₄.errors = [] := by rw [herrors₄, herrors₃, herrors₂, herrors₁]; rfl
  unfold parse at hssA hssB ⊢
  rw [parseLexemes_eq hread]
  refine ⟨herrors, blanks ++ blanks', fun st hst => ?_, ?_⟩
  · exact (List.mem_append.mp hst).elim (hblanks st) (hblanks' st)
  · simp [hssA, hssB]

end Grammar

end Scriptlet
