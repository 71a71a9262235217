import Scriptlet.Grammar.Parse

/-!
# `Proofs.Grammar.Progress` — every rule moves on and comes to an end

The rules that nest without end carry a budget. This module shows how much of it is enough: a state
with `n` lexemes left needs no more than a fixed multiple of `n`, because no rule calls itself again
before it has taken a lexeme.

## Contents
- `Token.eq_of_kind`: a token without text is the only one of its kind.
- `State.Leads`: the second state comes from the first one by taking lexemes and adding faults; the
  end of the text is never taken.
- `Rule.Total`: below a number of lexemes the rule comes to an end, and it takes some lexemes when it
  gives a result. `Rule.Total.bind` composes it; there is one lemma for each rule.
- `recover_leads`: recovery takes a lexeme wherever a statement fails without taking one.
- `expression_total`, `operators_total`, `block_total`, `statements_total`: the recursive rules, each
  with the budget it needs.
-/

namespace Scriptlet

/-! ## Tokens by their kind -/

namespace Token

/-- Tokens of one kind that differ in their text. -/
def carriesText : Token → Bool
  | illegal _ | ident _ | int _ | float _ | str _ => true
  | _ => false

theorem kind_of_not_carriesText {t : Token} (h : t.carriesText = false) : t.kind = t := by
  cases t <;> first | rfl | cases h

@[simp] theorem carriesText_kind (t : Token) : t.kind.carriesText = t.carriesText := by
  cases t <;> rfl

/-- A token without text is the only one of its kind. -/
theorem eq_of_kind {t u : Token} (hu : u.carriesText = false) (h : t.kind = u.kind) : t = u := by
  have ht : t.carriesText = false := by rw [← carriesText_kind, h, carriesText_kind, hu]
  rw [← kind_of_not_carriesText ht, h, kind_of_not_carriesText hu]

end Token

/-- A token that is looked for by its kind. -/
theorem State.kind_eq_of_currentIs {s : State} {t : Token} (h : s.currentIs t = true) :
    s.current.token.kind = t.kind := by
  simpa [currentIs] using h

/-- One rule after another gives a result where both do. -/
theorem Rule.bind_eq_ok {α β : Type} {r : Rule α} {f : α → Rule β} {s u : State} {b : β} :
    (r >>= f) s = .ok b u ↔ ∃ a t, r s = .ok a t ∧ f a t = .ok b u := by
  rw [bind_apply]
  constructor
  · intro h
    cases hr : r s with
    | ok a t => exact ⟨a, t, rfl, by rwa [hr] at h⟩
    | error e t | starved =>
      rw [hr] at h
      cases h
  · rintro ⟨a, t, hr, h⟩
    rw [hr]
    exact h

/-! ## Taking lexemes -/

/-- The end of the last of some lexemes, `stop` if there are none. -/
def lastStop (stop : Nat) : List Lexeme → Nat
  | [] => stop
  | x :: xs => lastStop x.stop xs

@[simp] theorem lastStop_nil (stop : Nat) : lastStop stop [] = stop := rfl

@[simp] theorem lastStop_cons (stop : Nat) (x : Lexeme) (xs : List Lexeme) :
    lastStop stop (x :: xs) = lastStop x.stop xs := rfl

theorem lastStop_append (stop : Nat) (xs ys : List Lexeme) :
    lastStop stop (xs ++ ys) = lastStop (lastStop stop xs) ys := by
  induction xs generalizing stop with
  | nil => rfl
  | cons x xs ih => exact ih x.stop

namespace State

/-- `t` comes from `s` by taking at least `k` lexemes, none of them the end of the text, and adding
    faults behind those noted. -/
def Leads (k : Nat) (s t : State) : Prop :=
  ∃ xs, s.rest = xs ++ t.rest ∧ t.stop = lastStop s.stop xs ∧ k ≤ xs.length
    ∧ (∀ x ∈ xs, x.token ≠ .eof) ∧ s.errors <+: t.errors

theorem Leads.refl (s : State) : s.Leads 0 s :=
  ⟨[], rfl, rfl, Nat.le_refl 0, by simp, List.prefix_refl _⟩

theorem Leads.trans {k m : Nat} {s t u : State} (h : s.Leads k t) (h' : t.Leads m u) :
    s.Leads (k + m) u := by
  obtain ⟨xs, hr, hs, hk, hx, he⟩ := h
  obtain ⟨ys, hr', hs', hm, hy, he'⟩ := h'
  refine ⟨xs ++ ys, by rw [hr, hr', List.append_assoc], ?_, ?_, ?_, he.trans he'⟩
  · rw [hs', hs, lastStop_append]
  · rw [List.length_append]; omega
  · intro z hz
    rcases List.mem_append.mp hz with hz | hz
    · exact hx z hz
    · exact hy z hz

theorem Leads.mono {k m : Nat} {s t : State} (h : s.Leads k t) (hm : m ≤ k) : s.Leads m t := by
  obtain ⟨xs, hr, hs, hk, hx, he⟩ := h
  exact ⟨xs, hr, hs, Nat.le_trans hm hk, hx, he⟩

theorem Leads.length_le {k : Nat} {s t : State} (h : s.Leads k t) :
    t.rest.length + k ≤ s.rest.length := by
  obtain ⟨xs, hr, -, hk, -, -⟩ := h
  rw [hr, List.length_append]; omega

/-! ### Single moves -/

theorem current_cons {x : Lexeme} {xs : List Lexeme} {stop : Nat} {errors : List SyntaxError} :
    (State.mk (x :: xs) stop errors).current = x := rfl

theorem step_cons {x : Lexeme} {xs : List Lexeme} {stop : Nat} {errors : List SyntaxError} :
    (State.mk (x :: xs) stop errors).step = ⟨xs, x.stop, errors⟩ := rfl

theorem errors_step (s : State) : s.step.errors = s.errors := by
  unfold step
  split <;> rfl

/-- Blank lines are moved over one at a time. -/
theorem skipBlankLines_eq (s : State) :
    s.skipBlankLines = if s.current.token = .blankLine then s.step.skipBlankLines else s := by
  obtain ⟨rest, stop, errors⟩ := s
  cases rest with
  | nil => rfl
  | cons x xs =>
    rw [current_cons, step_cons]
    unfold skipBlankLines
    by_cases hx : x.token = .blankLine
    · simp [dropBlankLines, hx]
    · simp [dropBlankLines, hx]

/-- A token other than the end of the text is one that is left. -/
theorem rest_eq_cons {s : State} (h : s.current.token ≠ .eof) :
    ∃ xs, s.rest = s.current :: xs := by
  unfold current at h ⊢
  cases hr : s.rest with
  | nil => simp [hr, Lexeme.endAt] at h
  | cons x xs => exact ⟨xs, by simp⟩

theorem step_leads_one {s : State} (h : s.current.token ≠ .eof) : s.Leads 1 s.step := by
  obtain ⟨xs, hr⟩ := rest_eq_cons h
  unfold step
  rw [hr]
  exact ⟨[s.current], hr, rfl, Nat.le_refl 1, by simpa using h, List.prefix_refl _⟩

theorem note_leads (s : State) (e : SyntaxError) : s.Leads 0 (s.note e) :=
  ⟨[], rfl, rfl, Nat.le_refl 0, by simp, List.prefix_append _ _⟩

theorem dropBlankLines_eq (xs : List Lexeme) (stop : Nat) :
    ∃ bs, (∀ x ∈ bs, x.token = .blankLine) ∧ xs = bs ++ (dropBlankLines xs stop).1
      ∧ (dropBlankLines xs stop).2 = lastStop stop bs := by
  fun_induction dropBlankLines xs stop with
  | case1 stop => exact ⟨[], by simp, rfl, rfl⟩
  | case2 x xs stop hx ih =>
    obtain ⟨bs, hb, hxs, hs⟩ := ih
    exact ⟨x :: bs, by simpa [hx] using hb, congrArg (x :: ·) hxs, hs⟩
  | case3 x xs stop hx => exact ⟨[], by simp, rfl, rfl⟩

theorem skipBlankLines_leads (s : State) : s.Leads 0 s.skipBlankLines := by
  obtain ⟨bs, hb, hxs, hs⟩ := dropBlankLines_eq s.rest s.stop
  exact ⟨bs, hxs, hs, Nat.zero_le _, fun x hx => by simp [hb x hx], List.prefix_refl _⟩

theorem dropBroken_eq (inBlock : Bool) (depth : Nat) (xs : List Lexeme) (stop : Nat) :
    ∃ ys, (∀ y ∈ ys, y.token ≠ .eof) ∧ xs = ys ++ (dropBroken inBlock depth xs stop).1
      ∧ (dropBroken inBlock depth xs stop).2 = lastStop stop ys := by
  fun_induction dropBroken inBlock depth xs stop <;>
    first
      | exact ⟨[], by simp, rfl, rfl⟩
      | exact ⟨[_], by simp_all, rfl, rfl⟩
      | (next ih =>
          obtain ⟨ys, hy, hxs, hs⟩ := ih
          refine ⟨_ :: ys, List.forall_mem_cons.mpr ⟨?_, hy⟩, congrArg (_ :: ·) hxs, hs⟩
          clear hxs hs
          simp_all)

theorem recover_leads_zero (inBlock : Bool) (s : State) : s.Leads 0 (s.recover inBlock) := by
  obtain ⟨ys, hy, hxs, hs⟩ := dropBroken_eq inBlock 0 s.rest s.stop
  exact ⟨ys, hxs, hs, Nat.zero_le _, hy, List.prefix_refl _⟩

/-- Recovery takes the token in front unless that one ends the statements or is a blank line. -/
theorem recover_leads {inBlock : Bool} {s : State}
    (hb : s.current.token ≠ .blankLine)
    (he : Grammar.endsStatements inBlock s.current.token = false) :
    s.Leads 1 (s.recover inBlock) := by
  have hne : s.current.token ≠ .eof := by
    intro h; rw [h] at he; simp [Grammar.endsStatements] at he
  obtain ⟨xs, hr⟩ := rest_eq_cons hne
  obtain ⟨ys, hy, hys, hs⟩ := dropBroken_eq inBlock 0 s.rest s.stop
  refine ⟨ys, hys, hs, ?_, hy, List.prefix_refl _⟩
  cases ys with
  | cons y ys => simp
  | nil =>
    -- nothing taken would mean that the front token stays, which only the excluded ones do
    exfalso
    have hlen := congrArg List.length hys
    rw [hr, List.nil_append] at hlen
    unfold dropBroken at hlen
    have hsuff := fun d => (dropBroken_suffix inBlock d xs s.current.stop).length_le
    split at hlen
    · contradiction
    · contradiction
    · simp at hlen
    · have := hsuff 1; simp at hlen; omega
    · next hrb =>
      rw [hrb] at he
      simp only [Grammar.endsStatements] at he
      subst he
      have := hsuff 0
      simp at hlen; omega
    · have := hsuff 0; simp at hlen; omega

end State

/-! ## Replies and rules that come to an end -/

/-- The reply is a result for which at least `k` lexemes were taken, or a fault. -/
def Reply.Leads {α : Type} (k : Nat) (s : State) : Reply α → Prop
  | .ok _ t => s.Leads k t
  | .error _ t => s.Leads 0 t
  | .starved => False

/-- A reply given after some lexemes were taken. -/
theorem Reply.Leads.after {α : Type} {r : Reply α} {s t : State} {j k m : Nat} (h : r.Leads j t)
    (hst : s.Leads k t) (hm : m ≤ k + j) : r.Leads m s := by
  cases r with
  | ok a u => exact (hst.trans h).mono hm
  | error e u => exact (hst.trans h).mono (Nat.zero_le _)
  | starved => exact h

theorem Reply.Leads.ne_starved {α : Type} {r : Reply α} {s : State} {k : Nat} (h : r.Leads k s) :
    r ≠ .starved := by
  rintro rfl
  exact h

/-- From the state `s` the rule comes to an end, with at least `k` lexemes taken if it gives a
    result. -/
def Rule.LeadsAt {α : Type} (k : Nat) (s : State) (r : Rule α) : Prop := (r s).Leads k s

/-- From fewer than `n` lexemes the rule comes to an end. -/
def Rule.Total {α : Type} (n k : Nat) (r : Rule α) : Prop :=
  ∀ s : State, s.rest.length < n → r.LeadsAt k s

namespace Rule

variable {α β : Type} {n k : Nat}

theorem Total.mono {r : Rule α} {m j : Nat} (h : r.Total n k) (hm : m ≤ n) (hj : j ≤ k) :
    r.Total m j := by
  intro s hs
  have := h s (Nat.lt_of_lt_of_le hs hm)
  exact Reply.Leads.after this (State.Leads.refl s) (by omega)

theorem Total.ne_starved {r : Rule α} (h : ∀ n, r.Total n k) (s : State) : r s ≠ .starved :=
  Reply.Leads.ne_starved (h (s.rest.length + 1) s (Nat.lt_succ_self _))

/-- What comes second has only the lexemes left that the first rule did not take. -/
theorem LeadsAt.bind {r : Rule α} {f : α → Rule β} {s : State} {j m : Nat} (h : r.LeadsAt k s)
    (hs : s.rest.length < n) (hf : ∀ a, (f a).Total (n - k) j) (hm : m ≤ k + j) :
    (r >>= f).LeadsAt m s := by
  unfold LeadsAt at h ⊢
  rw [bind_apply]
  cases hrs : r s with
  | ok a t =>
    rw [hrs] at h
    have hlen := State.Leads.length_le h
    exact Reply.Leads.after (hf a t (by omega)) h hm
  | error e t => rw [hrs] at h; exact h
  | starved => rw [hrs] at h; exact h.elim

theorem Total.bind {r : Rule α} {f : α → Rule β} {j m : Nat} (hr : r.Total n k)
    (hf : ∀ a, (f a).Total (n - k) j) (hm : m ≤ k + j) : (r >>= f).Total n m :=
  fun s hs => (hr s hs).bind hs hf hm

theorem total_pure (a : α) : (pure a : Rule α).Total n 0 := fun s _ => State.Leads.refl s

theorem total_fail (fault : Fault) (span : Span) : (fail fault span : Rule α).Total n k :=
  fun s _ => State.Leads.refl s

theorem total_look : look.Total n 0 := fun s _ => State.Leads.refl s

theorem total_skipBlankLines : skipBlankLines.Total n 0 := fun s _ => State.skipBlankLines_leads s

/-- No token but the end of the text is of its kind. -/
theorem ne_eof_of_currentIs {s : State} {t : Token} (ht : t ≠ .eof) (h : s.currentIs t = true) :
    s.current.token ≠ .eof := by
  intro heof
  have hkind : t.kind = s.current.token.kind := (State.kind_eq_of_currentIs h).symm
  rw [heof] at hkind
  exact ht (Token.eq_of_kind rfl hkind)

theorem total_skipOptional {t : Token} (ht : t ≠ .eof) : (skipOptional t).Total n 0 := by
  intro s _
  show s.Leads 0 (if s.currentIs t then s.step else s)
  split
  · next h => exact (State.step_leads_one (ne_eof_of_currentIs ht h)).mono (Nat.zero_le 1)
  · exact State.Leads.refl s

theorem total_expect {t : Token} (ht : t ≠ .eof) : (expect t).Total n 1 := by
  intro s _
  unfold LeadsAt expect
  split
  · next h => exact State.step_leads_one (ne_eof_of_currentIs ht h)
  · exact State.Leads.refl s

/-! ### Looking and taking -/

/-- What follows a look may depend on the token in front. -/
theorem look_bind_leads {f : Lexeme → Rule β} {s : State} (hf : (f s.current).LeadsAt k s) :
    (look >>= f).LeadsAt k s :=
  hf

theorem total_look_bind {f : Lexeme → Rule β}
    (hf : ∀ s : State, s.rest.length < n → (f s.current).LeadsAt k s) : (look >>= f).Total n k :=
  hf

/-- Before the end of the text `take` takes a lexeme. -/
theorem leads_take_bind {f : Lexeme → Rule β} {s : State} {j : Nat}
    (hs : s.rest.length < n) (hne : s.current.token ≠ .eof)
    (hf : ∀ x, (f x).Total (n - 1) j) (hk : k ≤ 1 + j) : (take >>= f).LeadsAt k s := by
  have hst := State.step_leads_one hne
  have hlen := hst.length_le
  exact Reply.Leads.after (hf s.current s.step (by omega)) hst hk

/-! ### Lists -/

theorem total_moreItems {item : Rule α} {budget : Nat} (hi : item.Total (n - 1) 1)
    (hb : n ≤ budget) : (moreItems item budget).Total n 0 := by
  -- a round starts with a comma, so the next one has fewer lexemes and the smaller budget is enough
  induction budget generalizing n with
  | zero => intro s hs; omega
  | succ budget ih =>
    unfold moreItems
    refine total_skipBlankLines.bind (j := 0) (fun _ => total_look_bind fun s hs => ?_)
      (Nat.le_refl 0)
    split
    · next hcomma =>
      refine leads_take_bind (j := 1) hs (by simp [hcomma]) (fun _ => ?_) (Nat.zero_le _)
      refine total_skipBlankLines.bind (j := 1) (fun _ => ?_) (Nat.le_refl 1)
      refine hi.bind (j := 0) (fun first => ?_) (Nat.le_refl 1)
      refine (ih (hi.mono (by omega) (Nat.le_refl 1)) (by omega)).bind (j := 0) (fun _ => ?_)
        (Nat.le_refl 0)
      exact total_pure _
    · exact total_pure _ s hs

theorem total_listOf {close : Token} {item : Rule α} {budget : Nat} (hc : close ≠ .eof)
    (hi : item.Total n 1) (hb : n ≤ budget) : (listOf close item budget).Total n 1 := by
  unfold listOf
  refine total_skipBlankLines.bind (j := 1) (fun _ => ?_) (Nat.le_refl 1)
  refine total_look.bind (j := 1) (fun x => ?_) (Nat.le_refl 1)
  split
  · exact (total_expect hc).bind (j := 0) (fun _ => total_pure _) (Nat.le_refl 1)
  · refine hi.bind (j := 1) (fun first => ?_) (by omega)
    refine (total_moreItems (hi.mono (by omega) (Nat.le_refl 1)) (by omega)).bind (j := 1)
      (fun others => ?_) (Nat.le_refl 1)
    exact (total_expect hc).bind (j := 0) (fun _ => total_pure _) (Nat.le_refl 1)

end Rule

/-! ## The rules over their parts -/

namespace Grammar

open Rule

section Parts

variable {n budget : Nat} {expr : ExprRule} {block : Rule Block}

theorem name_total : name.Total n 1 := by
  refine total_look_bind fun s hs => ?_
  split
  · next h => exact leads_take_bind (j := 0) hs (by simp [h]) (fun _ => total_pure _) (Nat.le_refl 1)
  · exact total_fail _ _ s hs

/-! ### Before the end of the text

A rule for a literal or an operator takes whatever is in front. The rules that call it have seen a
token there. -/

theorem integer_leads {s : State} (hs : s.rest.length < n) (hne : s.current.token ≠ .eof) :
    integer.LeadsAt 1 s := by
  refine leads_take_bind (j := 0) hs hne (fun x => ?_) (Nat.le_refl 1)
  split
  · exact total_pure _
  · exact total_fail _ _

theorem float_leads {s : State} (hs : s.rest.length < n) (hne : s.current.token ≠ .eof) :
    float.LeadsAt 1 s := by
  refine leads_take_bind (j := 0) hs hne (fun x => ?_) (Nat.le_refl 1)
  split
  · exact total_pure _
  · exact total_fail _ _

theorem unary_leads {s : State} (hs : s.rest.length < n) (hne : s.current.token ≠ .eof)
    (he : ∀ l, (expr l).Total (n - 1) 1) : (unary expr).LeadsAt 1 s := by
  refine leads_take_bind (j := 0) hs hne (fun x => ?_) (Nat.le_refl 1)
  split
  · exact (he _).bind (j := 0) (fun _ => total_pure _) (Nat.zero_le _)
  · exact total_fail _ _

theorem binary_leads {s : State} (hs : s.rest.length < n) (hne : s.current.token ≠ .eof)
    (he : ∀ l, (expr l).Total (n - 1) 1) (left : Expr) : (binary expr left).LeadsAt 1 s := by
  refine leads_take_bind (j := 0) hs hne (fun x => ?_) (Nat.le_refl 1)
  split
  · exact (he _).bind (j := 0) (fun _ => total_pure _) (Nat.zero_le _)
  · exact total_fail _ _

/-! ### From wherever they start -/

theorem array_total (he : ∀ l, (expr l).Total (n - 1) 1) (hb : n - 1 ≤ budget) :
    (array expr budget).Total n 1 := by
  refine (total_expect (by simp)).bind (j := 1) (fun _ => ?_) (by omega)
  exact (total_listOf (by simp) (he _) hb).bind (j := 0) (fun _ => total_pure _) (Nat.le_refl 1)

theorem entry_total (he : ∀ l, (expr l).Total n 1) : (entry expr).Total n 1 := by
  refine (he _).bind (j := 1) (fun _ => ?_) (by omega)
  refine total_skipBlankLines.bind (j := 1) (fun _ => ?_) (Nat.le_refl 1)
  refine (total_expect (by simp)).bind (j := 1) (fun _ => ?_) (by omega)
  exact ((he _).mono (by omega) (Nat.le_refl 1)).bind (j := 0) (fun _ => total_pure _) (Nat.le_refl 1)

theorem hash_total (he : ∀ l, (expr l).Total (n - 1) 1) (hb : n - 1 ≤ budget) :
    (hash expr budget).Total n 1 := by
  refine (total_expect (by simp)).bind (j := 1) (fun _ => ?_) (by omega)
  exact (total_listOf (by simp) (entry_total he) hb).bind (j := 0) (fun _ => total_pure _)
    (Nat.le_refl 1)

theorem cond_total (he : ∀ l, (expr l).Total (n - 1) 1) (hb : block.Total (n - 1) 1) :
    (cond expr block).Total n 1 := by
  refine (total_expect (by simp)).bind (j := 0) (fun _ => ?_) (Nat.le_refl 1)
  refine (he _).bind (j := 0) (fun _ => ?_) (Nat.zero_le _)
  refine (hb.mono (by omega) (Nat.le_refl 1)).bind (j := 0) (fun _ => ?_) (Nat.zero_le _)
  refine total_look_bind fun s hs => ?_
  split
  · next h =>
    refine leads_take_bind (j := 0) hs (by simp [h]) (fun _ => ?_) (Nat.zero_le _)
    exact (hb.mono (by omega) (Nat.le_refl 1)).bind (j := 0) (fun _ => total_pure _) (Nat.zero_le _)
  · exact total_pure _ s hs

theorem loop_total (he : ∀ l, (expr l).Total (n - 1) 1) (hb : block.Total (n - 1) 1) :
    (loop expr block).Total n 1 := by
  refine (total_expect (by simp)).bind (j := 0) (fun _ => ?_) (Nat.le_refl 1)
  refine (he _).bind (j := 0) (fun _ => ?_) (Nat.zero_le _)
  exact (hb.mono (by omega) (Nat.le_refl 1)).bind (j := 0) (fun _ => total_pure _) (Nat.zero_le _)

theorem func_total (hb : block.Total (n - 1) 1) (hB : n - 1 ≤ budget) :
    (func block budget).Total n 1 := by
  refine (total_expect (by simp)).bind (j := 0) (fun _ => ?_) (Nat.le_refl 1)
  refine (total_expect (by simp)).bind (j := 0) (fun _ => ?_) (Nat.zero_le _)
  refine (total_listOf (by simp) name_total (by omega)).bind (j := 0) (fun _ => ?_) (Nat.zero_le _)
  exact (hb.mono (by omega) (Nat.le_refl 1)).bind (j := 0) (fun _ => total_pure _) (Nat.zero_le _)

/-- What an expression starts with is never the end of the text. -/
theorem operand_total (he : ∀ l, (expr l).Total (n - 1) 1) (hb : block.Total (n - 1) 1)
    (hB : n - 1 ≤ budget) : (operand expr block budget).Total n 1 := by
  refine total_look_bind fun s hs => ?_
  split
  case h_1 => exact name_total.bind (j := 0) (fun _ => total_pure _) (Nat.le_refl 1) s hs
  case h_2 h => exact integer_leads hs (by simp [h])
  case h_3 h => exact float_leads hs (by simp [h])
  case h_4 h | h_5 h | h_6 h =>
    exact leads_take_bind (j := 0) hs (by simp [h]) (fun _ => total_pure _) (Nat.le_refl 1)
  case h_7 h | h_8 h => exact unary_leads hs (by simp [h]) he
  case h_9 => exact array_total he hB s hs
  case h_10 => exact hash_total he hB s hs
  case h_11 => exact cond_total he hb s hs
  case h_12 => exact loop_total he hb s hs
  case h_13 => exact func_total hb hB s hs
  case h_14 h =>
    refine leads_take_bind (j := 0) hs (by simp [h]) (fun _ => ?_) (Nat.le_refl 1)
    refine (he _).bind (j := 0) (fun _ => ?_) (Nat.zero_le _)
    refine total_skipBlankLines.bind (j := 0) (fun _ => ?_) (Nat.zero_le _)
    exact (total_expect (by simp)).bind (j := 0) (fun _ => total_pure _) (Nat.zero_le _)
  case h_15 => exact total_fail _ _ s hs

theorem call_total (he : ∀ l, (expr l).Total (n - 1) 1) (hb : n - 1 ≤ budget) (callee : Expr) :
    (call expr budget callee).Total n 1 := by
  refine (total_expect (by simp)).bind (j := 1) (fun _ => ?_) (by omega)
  exact (total_listOf (by simp) (he _) hb).bind (j := 0) (fun _ => total_pure _) (Nat.le_refl 1)

theorem index_total (he : ∀ l, (expr l).Total (n - 1) 1) (target : Expr) :
    (index expr target).Total n 1 := by
  refine (total_expect (by simp)).bind (j := 1) (fun _ => ?_) (by omega)
  refine (he _).bind (j := 0) (fun _ => ?_) (Nat.le_refl 1)
  refine total_skipBlankLines.bind (j := 0) (fun _ => ?_) (Nat.zero_le _)
  exact (total_expect (by simp)).bind (j := 0) (fun _ => total_pure _) (Nat.zero_le _)

theorem continuation_leads {s : State} (hs : s.rest.length < n) (hne : s.current.token ≠ .eof)
    (he : ∀ l, (expr l).Total (n - 1) 1) (hb : n - 1 ≤ budget) (left : Expr) :
    (continuation expr budget left).LeadsAt 1 s := by
  refine look_bind_leads ?_
  split
  · exact call_total he hb left s hs
  · exact index_total he left s hs
  · exact binary_leads hs hne he left

/-- A statement that gives a result takes a lexeme; one in front of a blank line always does. -/
theorem statement_total (he : ∀ l, (expr l).Total n 1) (hb : block.Total n 1) :
    (statement expr block).Total n 1 := by
  refine total_look_bind fun s hs => ?_
  split
  · next h => exact leads_take_bind (j := 0) hs (by simp [h]) (fun _ => total_pure _) (Nat.le_refl 1)
  · refine (total_expect (by simp)).bind (j := 0) (fun _ => ?_) (Nat.le_refl 1) s hs
    refine name_total.bind (j := 0) (fun _ => ?_) (Nat.zero_le _)
    refine (total_expect (by simp)).bind (j := 0) (fun _ => ?_) (Nat.zero_le _)
    refine ((he _).mono (by omega) (Nat.le_refl 1)).bind (j := 0) (fun _ => ?_) (Nat.zero_le _)
    exact (total_skipOptional (by simp)).bind (j := 0) (fun _ => total_pure _) (Nat.le_refl 0)
  · refine (total_expect (by simp)).bind (j := 0) (fun _ => ?_) (Nat.le_refl 1) s hs
    refine ((he _).mono (by omega) (Nat.le_refl 1)).bind (j := 0) (fun _ => ?_) (Nat.zero_le _)
    exact (total_skipOptional (by simp)).bind (j := 0) (fun _ => total_pure _) (Nat.le_refl 0)
  · exact hb.bind (j := 0) (fun _ => total_pure _) (Nat.le_refl 1) s hs
  · refine (he _).bind (j := 0) (fun _ => ?_) (Nat.le_refl 1) s hs
    exact (total_skipOptional (by simp)).bind (j := 0) (fun _ => total_pure _) (Nat.le_refl 0)

end Parts

/-! ## The recursive rules -/

/-- The budget `b` is enough for fewer than `n` lexemes. Statements call an expression and a block
    before they take anything, so they need a little more than these. -/
structure Enough (b n : Nat) : Prop where
  expression : 3 * n ≤ b + 2 → ∀ level, (expression b level).Total n 1
  operators : 3 * n ≤ b + 2 → ∀ level left, (operators b level left).Total n 0
  block : 3 * n ≤ b + 1 → (block b).Total n 1
  statements : 3 * n ≤ b → ∀ inBlock, (statements b inBlock).Total n 0

theorem Enough.zero (n : Nat) : Enough 0 n where
  expression h := fun _ s hs => by omega
  operators h := fun _ _ s hs => by omega
  block h := fun s hs => by omega
  statements h := fun _ s hs => by omega

theorem expression_succ_total {b n : Nat} (h : Enough b (n - 1)) (hn : 3 * n ≤ b + 3)
    (level : Precedence) : (expression (b + 1) level).Total n 1 := by
  unfold expression
  refine total_skipBlankLines.bind (j := 1) (fun _ => ?_) (Nat.le_refl 1)
  have hop : (operand (expression b) (block b) b).Total n 1 :=
    operand_total (h.expression (by omega)) (h.block (by omega)) (by omega)
  exact hop.bind (j := 0) (fun left => h.operators (by omega) level left) (Nat.le_refl 1)

/-- What stands behind an expression and binds at all is not the end of the text. -/
theorem ne_eof_of_binds {level : Precedence} {t : Token} (h : level.rank < t.precedence.rank) :
    t ≠ .eof := by
  rintro rfl
  exact absurd h (Nat.not_lt_zero _)

theorem operators_succ_total {b n : Nat} (h : Enough b (n - 1)) (hn : 3 * n ≤ b + 3)
    (level : Precedence) (left : Expr) : (operators (b + 1) level left).Total n 0 := by
  unfold operators
  refine total_look_bind fun s hs => ?_
  split
  · next hbinds =>
    have hc : (continuation (expression b) b left).LeadsAt 1 s :=
      continuation_leads hs (ne_eof_of_binds hbinds) (h.expression (by omega)) (by omega) left
    exact hc.bind (j := 0) hs (fun wider => h.operators (by omega) level wider) (by omega)
  · exact total_pure _ s hs

theorem block_succ_total {b n : Nat} (h : Enough b (n - 1)) (hn : 3 * n ≤ b + 2) :
    (block (b + 1)).Total n 1 := by
  unfold block
  refine (total_expect (by simp)).bind (j := 0) (fun _ => ?_) (Nat.le_refl 1)
  refine (h.statements (by omega) true).bind (j := 0) (fun _ => ?_) (Nat.le_refl 0)
  exact (total_expect (by simp)).bind (j := 0) (fun _ => total_pure _) (by omega)

/-- A blank line in front is a statement. -/
theorem statement_blank {expr : ExprRule} {block : Rule Block} {s : State}
    (h : s.current.token = .blankLine) :
    statement expr block s = .ok (.blank s.current.span) s.step := by
  unfold statement
  rw [look_bind, h]
  rfl

/-- A broken statement is passed by taking at least one lexeme: what it took itself or, where it took
    none, the one in front. -/
theorem recover_leads_of_error {inBlock : Bool} {e : SyntaxError} {s t : State}
    {expr : ExprRule} {block : Rule Block}
    (hs : endsStatements inBlock s.current.token = false) (hst : s.Leads 0 t)
    (herr : statement expr block s = .error e t) : s.Leads 1 ((t.note e).recover inBlock) := by
  have hnote := hst.trans (State.note_leads t e)
  -- where the statement took nothing, its first token is still in front, and recovery takes that
  by_cases hr : t.rest = s.rest
  · have hblank : s.current.token ≠ .blankLine := by
      intro hb
      rw [statement_blank hb] at herr
      simp at herr
    have heof : s.current.token ≠ .eof := by
      intro heof
      simp [heof, endsStatements] at hs
    have hc : (t.note e).current = s.current := by
      obtain ⟨xs, hxs⟩ := State.rest_eq_cons heof
      have hn : (t.note e).rest = s.current :: xs := hr.trans hxs
      unfold State.current at hn ⊢
      rw [hn]
      rfl
    exact hnote.trans (State.recover_leads (hc ▸ hblank) (hc ▸ hs))
  · obtain ⟨xs, hxs, hstop, -, hends, herrs⟩ := hnote
    have hpos : 1 ≤ xs.length := by
      cases xs with
      | nil => exact absurd hxs.symm hr
      | cons x xs => simp
    exact State.Leads.trans (k := 1) (m := 0) ⟨xs, hxs, hstop, hpos, hends, herrs⟩
      (State.recover_leads_zero inBlock _)

theorem statements_succ_total {b n : Nat} (h : Enough b n) (h' : Enough b (n - 1))
    (hn : 3 * n ≤ b + 1) (inBlock : Bool) : (statements (b + 1) inBlock).Total n 0 := by
  intro s hs
  have hrest : (statements b inBlock).Total (n - 1) 0 := h'.statements (by omega) inBlock
  unfold LeadsAt statements
  split
  · exact State.Leads.refl s
  · next hends =>
    split
    · next hsemi =>
      have hst := State.step_leads_one (s := s) (by simp [hsemi])
      have hlen := hst.length_le
      exact Reply.Leads.after (hrest s.step (by omega)) hst (Nat.zero_le _)
    · have hstmt : (statement (expression b) (block b) s).Leads 1 s :=
        statement_total (h.expression (by omega)) (h.block (by omega)) s hs
      split
      · next first t hr =>
        rw [hr] at hstmt
        have hlen := State.Leads.length_le hstmt
        have hcons :
            (do return first :: (← statements b inBlock) : Rule (List Stmt)).Total (n - 1) 0 :=
          hrest.bind (j := 0) (fun _ => total_pure _) (Nat.le_refl 0)
        exact Reply.Leads.after (hcons t (by omega)) hstmt (Nat.zero_le _)
      · next e t hr =>
        rw [hr] at hstmt
        have hst := recover_leads_of_error (by simpa using hends) hstmt hr
        have hlen := hst.length_le
        exact Reply.Leads.after (hrest _ (by omega)) hst (Nat.zero_le _)
      · next hr => rw [hr] at hstmt; exact hstmt

/-- A budget of three times the number of lexemes is enough, whatever they are. -/
theorem enough (b n : Nat) : Enough b n := by
  -- operators and blocks ask for fewer lexemes in the step, statements for just as many
  induction b generalizing n with
  | zero => exact Enough.zero n
  | succ b ih =>
    exact
      { expression := fun hn => expression_succ_total (ih _) (by omega)
        operators := fun hn => operators_succ_total (ih _) (by omega)
        block := fun hn => block_succ_total (ih _) (by omega)
        statements := fun hn => statements_succ_total (ih _) (ih _) (by omega) }

end Grammar

end Scriptlet
