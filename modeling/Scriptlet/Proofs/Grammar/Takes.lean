import Scriptlet.Proofs.Grammar.Settled

/-!
# `Proofs.Grammar.Takes` — rules that take the lexemes meant for them

Whether a rule stops where it should depends on the token after its lexemes: a name may go on as a
call, a condition with `else`. So a rule is said to take some lexemes before every token of a class,
and rules follow each other where the first lexeme of one is in the class of the other.

## Contents
- `State.Through`: the second state stands after some lexemes of the first, with no fault in between.
- `Rule.Takes`: what a rule gives for the lexemes it takes. `Rule.Takes.bind` composes it.
- `Blanks`, `Separated`: blank lines, and items between commas and blank lines.
- `listOf_takes`: a list of items up to its closing token.
-/

namespace Scriptlet

/-! ## From state to state -/

/-- After the lexemes `xs` of `s` comes `t`; no fault was noted in between. -/
structure State.Through (s : State) (xs : List Lexeme) (t : State) : Prop where
  rest : s.rest = xs ++ t.rest
  stop : t.stop = lastStop s.stop xs
  errors : t.errors = s.errors

namespace State

variable {s t u : State} {x : Lexeme} {xs ys : List Lexeme}

theorem through_nil (s : State) : s.Through [] s := ⟨rfl, rfl, rfl⟩

theorem Through.eq_of_nil (h : s.Through [] t) : t = s := by
  obtain ⟨hrest, hstop, herrors⟩ := h
  obtain ⟨rest, stop, errors⟩ := t
  obtain ⟨rest', stop', errors'⟩ := s
  simp only [List.nil_append, lastStop_nil] at hrest hstop herrors
  rw [hrest, hstop, herrors]

/-- Every way through two parts passes a state between them. -/
theorem Through.split (h : s.Through (xs ++ ys) u) : ∃ t, s.Through xs t ∧ t.Through ys u := by
  obtain ⟨hrest, hstop, herrors⟩ := h
  refine ⟨⟨ys ++ u.rest, lastStop s.stop xs, s.errors⟩, ⟨?_, rfl, rfl⟩, ⟨rfl, ?_, herrors⟩⟩
  · rw [hrest, List.append_assoc]
  · rw [hstop, lastStop_append]

theorem Through.current_eq (h : s.Through (x :: xs) u) : s.current = x := by
  unfold current
  rw [h.rest]
  rfl

theorem Through.step (h : s.Through (x :: xs) u) : s.step.Through xs u := by
  obtain ⟨hrest, hstop, herrors⟩ := h
  unfold State.step
  rw [hrest]
  exact ⟨rfl, hstop, herrors⟩

theorem Through.length_le (h : s.Through xs t) : t.rest.length + xs.length ≤ s.rest.length := by
  rw [h.rest, List.length_append]
  omega

/-- The way from a list of lexemes to what follows some of them. -/
theorem through_mk (xs ys : List Lexeme) (stop : Nat) (errors : List SyntaxError) :
    (State.mk (xs ++ ys) stop errors).Through xs ⟨ys, lastStop stop xs, errors⟩ := ⟨rfl, rfl, rfl⟩

end State

/-! ## Taking lexemes -/

/-- From every state with at most `b` lexemes, `xs` first among them, the rule takes `xs` and gives
    `a`, if the token after `xs` is in the class `F`. -/
def Rule.Takes {α : Type} (b : Nat) (r : Rule α) (a : α) (xs : List Lexeme) (F : Token → Prop) :
    Prop :=
  ∀ s t : State, s.rest.length ≤ b → s.Through xs t → F t.current.token → r s = .ok a t

/-- Every token. -/
abbrev anyToken : Token → Prop := fun _ => True

/-- The lexemes are followed by a token in the class `F` if what comes after them is in `G`. -/
def Leading (F : Token → Prop) (xs : List Lexeme) (G : Token → Prop) : Prop :=
  ∀ s t : State, s.Through xs t → G t.current.token → F s.current.token

theorem leading_nil {F G : Token → Prop} (h : ∀ t, G t → F t) : Leading F [] G := by
  intro s t hst ht
  rw [hst.eq_of_nil] at ht
  exact h _ ht

theorem leading_cons {F G : Token → Prop} {x : Lexeme} {xs : List Lexeme} (h : F x.token) :
    Leading F (x :: xs) G := by
  intro s t hst _
  rw [hst.current_eq]
  exact h

theorem leading_any {G : Token → Prop} {xs : List Lexeme} : Leading anyToken xs G :=
  fun _ _ _ _ => trivial

theorem Leading.append {F G H : Token → Prop} {xs ys : List Lexeme} (h : Leading F xs G)
    (h' : Leading G ys H) : Leading F (xs ++ ys) H := by
  intro s u hsu hu
  obtain ⟨t, hst, htu⟩ := hsu.split
  exact h s t hst (h' t u htu hu)

namespace Rule

variable {α β : Type} {b : Nat} {F G : Token → Prop} {x : Lexeme} {xs ys : List Lexeme}

theorem Takes.bind {r : Rule α} {f : α → Rule β} {a : α} {c : β} (h : r.Takes b a xs F)
    (hf : (f a).Takes b c ys G) (hys : Leading F ys G) : (r >>= f).Takes b c (xs ++ ys) G := by
  intro s u hb hsu hu
  obtain ⟨t, hst, htu⟩ := hsu.split
  have hlen := hst.length_le
  rw [bind_ok (h s t hb hst (hys t u htu hu))]
  exact hf t u (by omega) htu hu

theorem Takes.mono {r : Rule α} {a : α} (h : r.Takes b a xs F) (hFG : ∀ t, G t → F t) :
    r.Takes b a xs G :=
  fun s t hb hst ht => h s t hb hst (hFG _ ht)

theorem pure_takes (a : α) : (pure a : Rule α).Takes b a [] F := by
  intro s t _ hst _
  rw [hst.eq_of_nil]
  rfl

/-- What a rule leaves to the rule after it. -/
theorem Takes.bind_eq {r : Rule α} {a : α} {s u : State} (h : ∀ b, r.Takes b a xs F)
    (hsu : s.Through (xs ++ ys) u) (hys : Leading F ys G) (hu : G u.current.token) :
    ∃ t, t.Through ys u ∧ ∀ f : α → Rule β, (r >>= f) s = f a t := by
  obtain ⟨t, hst, htu⟩ := hsu.split
  exact ⟨t, htu, fun f => bind_ok (h _ s t (Nat.le_refl _) hst (hys t u htu hu))⟩

/-- A last step that takes nothing. -/
theorem Takes.bind_pure {r : Rule α} {f : α → Rule β} {a : α} {c : β} (h : r.Takes b a xs F)
    (hf : f a = pure c) : (r >>= f).Takes b c xs F := by
  intro s t hb hst ht
  rw [bind_ok (h s t hb hst ht), hf]
  rfl

/-! ### Single lexemes -/

theorem take_takes (x : Lexeme) : take.Takes b x [x] F := by
  intro s t _ hst _
  have hstep := hst.step.eq_of_nil
  unfold take
  rw [hst.current_eq, hstep]

theorem expect_takes {t : Token} (hx : x.token.kind = t.kind) :
    (expect t).Takes b x.span [x] F := by
  intro s u _ hst _
  have hstep := hst.step.eq_of_nil
  have hcur : s.currentIs t = true := by
    unfold State.currentIs
    rw [hst.current_eq]
    exact decide_eq_true hx
  unfold expect
  rw [if_pos hcur, hst.current_eq, hstep]

/-- A look at a lexeme that is then taken. -/
theorem look_takes {f : Lexeme → Rule β} {c : β} (h : (f x).Takes b c (x :: xs) F) :
    (look >>= f).Takes b c (x :: xs) F := by
  intro s t hb hst ht
  rw [look_bind, hst.current_eq]
  exact h s t hb hst ht

theorem take_bind_takes {f : Lexeme → Rule β} {c : β} (h : (f x).Takes b c xs F) :
    (take >>= f).Takes b c (x :: xs) F :=
  (take_takes (F := anyToken) x).bind h leading_any

theorem expect_bind_takes {t : Token} {f : Span → Rule β} {c : β} (hx : x.token.kind = t.kind)
    (h : (f x.span).Takes b c xs F) : (expect t >>= f).Takes b c (x :: xs) F :=
  (expect_takes (F := anyToken) hx).bind h leading_any

end Rule

/-! ## Blank lines -/

/-- All of the lexemes are blank lines. -/
def Blanks (bs : List Lexeme) : Prop := ∀ x ∈ bs, x.token = .blankLine

theorem blanks_nil : Blanks [] := by
  intro x hx
  simp at hx

/-- Every token but the blank line. -/
def NotBlank (t : Token) : Prop := t ≠ .blankLine

theorem State.dropBlankLines_blanks {bs ys : List Lexeme} {stop : Nat} (hb : Blanks bs)
    (hy : ∀ y ∈ ys.head?, y.token ≠ .blankLine) :
    State.dropBlankLines (bs ++ ys) stop = (ys, lastStop stop bs) := by
  induction bs generalizing stop with
  | nil =>
    cases ys with
    | nil => rfl
    | cons y ys =>
      show (if y.token = .blankLine then State.dropBlankLines ys y.stop else (y :: ys, stop)) = _
      rw [if_neg (hy y rfl)]
      rfl
  | cons x bs ih =>
    show (if x.token = .blankLine then State.dropBlankLines (bs ++ ys) x.stop
      else (x :: (bs ++ ys), stop)) = _
    rw [if_pos (hb x List.mem_cons_self), ih fun y hy => hb y (List.mem_cons_of_mem x hy)]
    rfl

theorem State.Through.skipBlankLines {s t : State} {bs : List Lexeme} (h : s.Through bs t)
    (hb : Blanks bs) (ht : NotBlank t.current.token) : s.skipBlankLines = t := by
  have hdrop : State.dropBlankLines s.rest s.stop = (t.rest, t.stop) := by
    rw [h.rest, h.stop]
    refine State.dropBlankLines_blanks hb fun y hy => ?_
    unfold State.current at ht
    rw [hy] at ht
    exact ht
  unfold State.skipBlankLines
  rw [hdrop, ← h.errors]

theorem Rule.skipBlankLines_takes {b : Nat} {bs : List Lexeme} (hb : Blanks bs) :
    Rule.skipBlankLines.Takes b () bs NotBlank := by
  intro s t _ hst ht
  unfold Rule.skipBlankLines
  rw [hst.skipBlankLines hb ht]

/-! ## Lists -/

/-- The pieces after the first one, each behind a comma, with blank lines around the commas. -/
inductive More : List (List Lexeme) → List Lexeme → Prop
  | nil {bs : List Lexeme} (hb : Blanks bs) : More [] bs
  | cons {bs bs' xs ys : List Lexeme} {c : Lexeme} {ps : List (List Lexeme)} (hb : Blanks bs)
      (hc : c.token = .comma) (hb' : Blanks bs') (h : More ps ys) :
      More (xs :: ps) (bs ++ c :: (bs' ++ (xs ++ ys)))

/-- The pieces with commas between them and blank lines around them. -/
inductive Separated : List (List Lexeme) → List Lexeme → Prop
  | nil {bs : List Lexeme} (hb : Blanks bs) : Separated [] bs
  | cons {bs xs ys : List Lexeme} {ps : List (List Lexeme)} (hb : Blanks bs) (h : More ps ys) :
      Separated (xs :: ps) (bs ++ (xs ++ ys))

/-- Tokens that stand after an item: a comma, a blank line, or the closing token. -/
def AfterItem (close t : Token) : Prop := t = .comma ∨ t = .blankLine ∨ t.kind = close.kind

/-- What the lexemes of an item look like: they are not empty, and their first one neither is a blank
    line nor closes the list. -/
def IsItem (close : Token) (xs : List Lexeme) : Prop :=
  ∃ x ys, xs = x :: ys ∧ NotBlank x.token ∧ x.token.kind ≠ close.kind

theorem Blanks.leading {bs : List Lexeme} (hb : Blanks bs) {F G : Token → Prop}
    (hF : F .blankLine) (hG : ∀ t, G t → F t) : Leading F bs G := by
  cases bs with
  | nil => exact leading_nil hG
  | cons x bs =>
    refine leading_cons ?_
    rw [hb x List.mem_cons_self]
    exact hF

theorem More.leading {close : Token} {ps : List (List Lexeme)} {ys : List Lexeme} (h : More ps ys) :
    Leading (AfterItem close) ys fun t => t.kind = close.kind := by
  have hblank : AfterItem close .blankLine := Or.inr (Or.inl rfl)
  cases h with
  | nil hb => exact hb.leading hblank fun _ ht => Or.inr (Or.inr ht)
  | cons hb hc _ _ =>
    refine (hb.leading hblank fun _ ht => ht).append ?_
    exact leading_cons (Or.inl hc)

namespace Rule

variable {α : Type} {close : Token} {item : Rule α} {b : Nat}

theorem moreItems_takes (hclose : NotBlank close.kind ∧ close.kind ≠ .comma)
    {items : List (α × List Lexeme)} {ys : List Lexeme} (h : More (items.map Prod.snd) ys)
    (hitem : ∀ i ∈ items, IsItem close i.2 ∧ item.Takes b i.1 i.2 (AfterItem close)) {n : Nat}
    (hn : ys.length < n) :
    (moreItems item n).Takes b (items.map Prod.fst) ys fun t => t.kind = close.kind := by
  -- the closing token is known by its kind, and that is neither a blank line nor a comma
  have hend : ∀ t : Token, t.kind = close.kind → NotBlank t ∧ t ≠ .comma := by
    intro t ht
    refine ⟨fun hb => ?_, fun hc => ?_⟩
    · rw [hb] at ht
      exact hclose.1 ht.symm
    · rw [hc] at ht
      exact hclose.2 ht.symm
  induction items generalizing ys n with
  | nil =>
    cases h with
    | nil hb =>
      obtain ⟨n, rfl⟩ : ∃ m, n = m + 1 := ⟨n - 1, by omega⟩
      intro s t _ hst ht
      have hskip := hst.skipBlankLines hb (hend _ ht).1
      unfold moreItems
      rw [skipBlankLines_bind, hskip, look_bind, if_neg (hend _ ht).2]
      rfl
  | cons i items ih =>
    obtain ⟨a, xs⟩ := i
    rw [List.map_cons] at h
    cases h with
    | @cons bs bs' _ zs c _ hb hc hb' h =>
      obtain ⟨n, rfl⟩ : ∃ m, n = m + 1 := ⟨n - 1, by omega⟩
      obtain ⟨⟨x, xs', hxs, hx, -⟩, htakes⟩ := hitem (a, xs) List.mem_cons_self
      have hlater := ih h (fun j hj => hitem j (List.mem_cons_of_mem _ hj)) (n := n) (by
        simp only [List.length_append, List.length_cons] at hn
        omega)
      have hxs : xs = x :: xs' := hxs
      unfold moreItems
      refine (skipBlankLines_takes hb).bind (look_takes ?_) (leading_cons (by simp [NotBlank, hc]))
      rw [if_pos hc]
      refine take_bind_takes ((skipBlankLines_takes hb').bind ?_ ?_)
      · exact htakes.bind (hlater.bind_pure rfl) h.leading
      · rw [hxs]
        exact leading_cons hx

/-- Items with commas between them up to the closing token. The budget counts the commas. -/
theorem listOf_takes_of_lt (hclose : NotBlank close.kind ∧ close.kind ≠ .comma)
    {items : List (α × List Lexeme)} {ys : List Lexeme} (h : Separated (items.map Prod.snd) ys)
    (hitem : ∀ i ∈ items, IsItem close i.2 ∧ item.Takes b i.1 i.2 (AfterItem close)) {z : Lexeme}
    (hz : z.token.kind = close.kind) {F : Token → Prop} (hlen : ys.length < b) :
    (listOf close item b).Takes b (items.map Prod.fst, z.stop) (ys ++ [z]) F := by
  have hzblank : NotBlank z.token := by
    intro hb
    rw [hb] at hz
    exact hclose.1 hz.symm
  unfold listOf
  cases items with
  | nil =>
    cases h with
    | nil hb =>
      refine (skipBlankLines_takes hb).bind (look_takes ?_) (leading_cons hzblank)
      rw [if_pos hz]
      exact (expect_takes hz).bind_pure rfl
  | cons i items =>
    obtain ⟨a, xs⟩ := i
    rw [List.map_cons] at h
    cases h with
    | @cons bs _ zs _ hb h =>
      obtain ⟨⟨x, xs', hxs, hx, hxclose⟩, htakes⟩ := hitem (a, xs) List.mem_cons_self
      have hxs : xs = x :: xs' := hxs
      subst hxs
      have hmore := moreItems_takes hclose h
        (fun j hj => hitem j (List.mem_cons_of_mem _ hj)) (n := b) (by
          simp only [List.length_append, List.length_cons] at hlen
          omega)
      rw [List.append_assoc, List.append_assoc]
      refine (skipBlankLines_takes hb).bind (look_takes ?_) (leading_cons hx)
      rw [if_neg hxclose]
      refine htakes.bind (hmore.bind ?_ (leading_cons hz)) ?_
      · exact (expect_takes hz).bind_pure rfl
      · exact h.leading.append (leading_cons hz)

/-- A budget of one for each lexeme left is enough for the commas. -/
theorem listOf_takes (hclose : NotBlank close.kind ∧ close.kind ≠ .comma)
    {items : List (α × List Lexeme)} {ys : List Lexeme} (h : Separated (items.map Prod.snd) ys)
    (hitem : ∀ i ∈ items, IsItem close i.2 ∧ item.Takes b i.1 i.2 (AfterItem close)) {z : Lexeme}
    (hz : z.token.kind = close.kind) {F : Token → Prop} :
    (listOf close item b).Takes b (items.map Prod.fst, z.stop) (ys ++ [z]) F := by
  intro s t hb hst ht
  have hlen := hst.length_le
  rw [List.length_append, List.length_singleton] at hlen
  exact listOf_takes_of_lt hclose h hitem hz (by omega) s t hb hst ht

end Rule

end Scriptlet
