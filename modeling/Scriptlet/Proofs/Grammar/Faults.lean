import Scriptlet.Proofs.Grammar.Placed

/-!
# `Proofs.Grammar.Faults` — faults come in the order of the text

A fault is found at the lexeme in front or at the one taken last, and what is noted stands before it.
Recovery does not always take the lexeme at fault: it stops at a blank line, and in a block at the
brace that closes it. What comes next takes these without a fault, so nothing is reported twice. The
end of the text alone can be, once for every block that is left open.

## Contents
- `WholeText`: lexemes one behind the other, and the end of the text behind them.
- `State.Tidy`: all faults noted are before the lexeme in front. `Failed`: a fault that is found.
- `State.Near`: after recovery a fault may also be at the lexeme in front, if this is one that is passed.
- `Rule.Orders`: from a tidy state the rule leaves a tidy one or finds a fault. `Rule.Orders.bind`
  composes it; there is one lemma for each rule.
- `rules_order`: the recursive rules. `parse_errors_ordered`: the faults of a text.
-/

namespace Scriptlet

/-! ## Places in a text -/

/-- The lexemes of a whole text. -/
structure WholeText (xs : List Lexeme) : Prop where
  sorted : xs.Pairwise fun x y => x.start < y.start
  ends : ∃ ys z, xs = ys ++ [z] ∧ z.token = .eof ∧ ∀ y ∈ ys, y.token ≠ .eof

theorem Ordered.le_start {Ok : Nat → Prop} {p : Nat} {xs : List Lexeme} (h : Ordered Ok p xs) :
    ∀ x ∈ xs, p ≤ x.start := by
  induction xs generalizing p with
  | nil => exact fun x hx => absurd hx List.not_mem_nil
  | cons x xs ih =>
    obtain ⟨hle, hstop, -, -, -, hmore⟩ := h
    intro y hy
    rcases List.mem_cons.mp hy with rfl | hy
    · exact hle
    · have hy := ih hmore y hy
      omega

/-- Lexemes that are not empty lie strictly one behind the other. -/
theorem Ordered.sorted {Ok : Nat → Prop} {p : Nat} {ys : List Lexeme} {z : Lexeme}
    (h : Ordered Ok p (ys ++ [z])) (hys : ∀ y ∈ ys, y.token ≠ .eof) :
    (ys ++ [z]).Pairwise fun x y => x.start < y.start := by
  induction ys generalizing p with
  | nil => exact List.pairwise_singleton _ z
  | cons y ys ih =>
    obtain ⟨-, -, hne, -, -, hmore⟩ := h
    have hlt := hne (hys y List.mem_cons_self)
    refine List.Pairwise.cons (fun x hx => ?_) (ih hmore fun x hx => hys x (List.mem_cons_of_mem y hx))
    exact Nat.lt_of_lt_of_le hlt (hmore.le_start x hx)

/-- The state stands in front of a lexeme of the text. -/
def State.Inside (xs : List Lexeme) (s : State) : Prop := s.rest <:+ xs ∧ s.rest ≠ []

namespace State.Inside

variable {xs : List Lexeme} {s t : State} {k : Nat}

theorem exists_rest (h : s.Inside xs) : ∃ ys, s.rest = s.current :: ys := by
  obtain ⟨rest, stop, errors⟩ := s
  cases rest with
  | nil => exact absurd rfl h.2
  | cons x ys => exact ⟨ys, rfl⟩

theorem current_mem (h : s.Inside xs) : s.current ∈ xs := by
  obtain ⟨ys, hrest⟩ := h.exists_rest
  exact h.1.subset (by rw [hrest]; exact List.mem_cons_self)

/-- Moving on leads to the same lexeme or to one behind it. -/
theorem move (h : s.Inside xs) (hxs : WholeText xs) (hst : s.Leads k t) :
    t.Inside xs ∧ (t.current = s.current ∧ k = 0 ∨ s.current.start < t.current.start) := by
  obtain ⟨ys, hrest, -, hk, hys, -⟩ := hst
  have hsuffix : t.rest <:+ xs := List.IsSuffix.trans ⟨ys, hrest.symm⟩ h.1
  have hne : t.rest ≠ [] := by
    -- the end of the text is never passed
    intro hnil
    rw [hnil, List.append_nil] at hrest
    obtain ⟨us, z, rfl, hz, -⟩ := hxs.ends
    have hlast := h.1.getLast h.2
    rw [List.getLast_concat] at hlast
    exact hys z (hrest ▸ hlast ▸ List.getLast_mem h.2) hz
  have ht : t.Inside xs := ⟨hsuffix, hne⟩
  refine ⟨ht, ?_⟩
  cases ys with
  | nil =>
    refine Or.inl ⟨?_, Nat.le_zero.mp hk⟩
    unfold State.current
    rw [hrest, List.nil_append]
    cases hr : t.rest with
    | nil => exact absurd hr hne
    | cons z zs => rfl
  | cons y ys =>
    obtain ⟨zs, hzs⟩ := ht.exists_rest
    have hfront : s.current = y := by
      unfold State.current
      rw [hrest]
      rfl
    have hsorted := hxs.sorted.sublist h.1.sublist
    rw [hrest, hzs, List.cons_append] at hsorted
    rw [hfront]
    exact Or.inr (List.rel_of_pairwise_cons hsorted (List.mem_append_right ys List.mem_cons_self))

end State.Inside

/-! ## Faults in order -/

/-- The fault is before the lexeme, or both are at the end of the text. -/
def Lexeme.Behind (x : Lexeme) (d : SyntaxError) : Prop :=
  d.span.start < x.start ∨ (x.token = .eof ∧ d.span = x.span)

/-- The second fault is behind the first one, or both are at the end of the text. -/
def SyntaxError.Follows (xs : List Lexeme) (d e : SyntaxError) : Prop :=
  d.span.start < e.span.start ∨ ∃ z ∈ xs, z.token = .eof ∧ d.span = z.span ∧ e.span = z.span

/-- Faults in the order of the text, each at one of its lexemes. -/
structure InOrder (xs : List Lexeme) (es : List SyntaxError) : Prop where
  order : es.Pairwise (SyntaxError.Follows xs)
  places : ∀ d ∈ es, ∃ x ∈ xs, d.span = x.span

/-- All faults noted are before the lexeme in front. -/
structure State.Tidy (xs : List Lexeme) (s : State) : Prop where
  inside : s.Inside xs
  inOrder : InOrder xs s.errors
  behind : ∀ d ∈ s.errors, s.current.Behind d

/-- A fault at a lexeme that is in front or was taken, behind all faults that are noted. -/
structure Failed (xs : List Lexeme) (e : SyntaxError) (t : State) : Prop where
  inside : t.Inside xs
  inOrder : InOrder xs t.errors
  place : ∃ x ∈ xs, e.span = x.span ∧ (∀ d ∈ t.errors, x.Behind d) ∧
    (x = t.current ∨ x.start < t.current.start)

/-- The next lexeme of a broken statement after which recovery may stop in front of it, without a
    fault to come from it. -/
def Halts (inBlock : Bool) (t : Token) : Prop := t = .blankLine ∨ (inBlock = true ∧ t = .rightBrace)

/-- As tidy, but that a fault may be at the lexeme in front if this is one that recovery stops at. -/
structure State.Near (xs : List Lexeme) (inBlock : Bool) (s : State) : Prop where
  inside : s.Inside xs
  inOrder : InOrder xs s.errors
  behind : ∀ d ∈ s.errors, s.current.Behind d ∨
    (d.span = s.current.span ∧ Halts inBlock s.current.token)

theorem Lexeme.Behind.lt {x y : Lexeme} {d : SyntaxError} (h : x.Behind d)
    (hlt : x.start < y.start) : d.span.start < y.start := by
  rcases h with h | ⟨-, h⟩
  · exact Nat.lt_trans h hlt
  · rw [h]
    exact hlt

section Moves

variable {xs : List Lexeme} {s t : State} {inBlock : Bool} {k : Nat}

theorem State.Tidy.near (h : s.Tidy xs) (inBlock : Bool) : s.Near xs inBlock :=
  ⟨h.inside, h.inOrder, fun d hd => Or.inl (h.behind d hd)⟩

theorem State.Tidy.move (h : s.Tidy xs) (hxs : WholeText xs) (hst : s.Leads k t)
    (he : t.errors = s.errors) : t.Tidy xs := by
  obtain ⟨ht, hmove⟩ := h.inside.move hxs hst
  refine ⟨ht, he ▸ h.inOrder, fun d hd => ?_⟩
  rw [he] at hd
  rcases hmove with ⟨hsame, -⟩ | hlt
  · rw [hsame]
    exact h.behind d hd
  · exact Or.inl ((h.behind d hd).lt hlt)

/-- A lexeme that is taken leaves all faults behind, those at it too. -/
theorem State.Near.step (h : s.Near xs inBlock) (hxs : WholeText xs)
    (hne : s.current.token ≠ .eof) : s.step.Tidy xs := by
  obtain ⟨ht, hmove⟩ := h.inside.move hxs (State.step_leads_one hne)
  refine ⟨ht, (State.errors_step s).symm ▸ h.inOrder, fun d hd => ?_⟩
  rw [State.errors_step] at hd
  have hlt := hmove.resolve_left fun hsame => absurd hsame.2 (by decide)
  rcases h.behind d hd with hbehind | ⟨hspan, -⟩
  · exact Or.inl (hbehind.lt hlt)
  · left
    rw [hspan]
    exact hlt

theorem State.Tidy.step (h : s.Tidy xs) (hxs : WholeText xs) (hne : s.current.token ≠ .eof) :
    s.step.Tidy xs :=
  (h.near false).step hxs hne

/-- A fault at the lexeme in front. -/
theorem State.Tidy.failed (h : s.Tidy xs) {e : SyntaxError} (he : e.span = s.current.span) :
    Failed xs e s :=
  ⟨h.inside, h.inOrder, s.current, h.inside.current_mem, he, h.behind, Or.inl rfl⟩

/-- A fault that is found is noted behind the others. -/
theorem Failed.inOrder_note {e : SyntaxError} (h : Failed xs e t) :
    InOrder xs (t.errors ++ [e]) := by
  obtain ⟨x, hx, he, hbehind, -⟩ := h.place
  constructor
  · refine List.pairwise_append.mpr ⟨h.inOrder.order, List.pairwise_singleton _ e, ?_⟩
    intro d hd e' he'
    rw [List.mem_singleton.mp he']
    rcases hbehind d hd with hlt | ⟨heof, hspan⟩
    · left
      rw [he]
      exact hlt
    · exact Or.inr ⟨x, hx, heof, hspan, he⟩
  · intro d hd
    rcases List.mem_append.mp hd with hd | hd
    · exact h.inOrder.places d hd
    · rw [List.mem_singleton.mp hd]
      exact ⟨x, hx, he⟩

/-- Recovery stops at once only where a statement may end without a fault. -/
theorem halts_of_recover (hxs : WholeText xs) (h : s.Inside xs) (heof : s.current.token ≠ .eof)
    (hstays : ¬ s.current.start < (s.recover inBlock).current.start) :
    Halts inBlock s.current.token := by
  by_cases hblank : s.current.token = .blankLine
  · exact Or.inl hblank
  cases hends : Grammar.endsStatements inBlock s.current.token with
  | false =>
    obtain ⟨-, ⟨-, hone⟩ | hlt⟩ := h.move hxs (State.recover_leads hblank hends)
    · cases hone
    · exact absurd hlt hstays
  | true =>
    cases hc : s.current.token <;> rw [hc] at hends heof <;>
      first
        | exact absurd rfl heof
        | exact Or.inr ⟨hends, rfl⟩
        | cases hends

/-- After a fault recovery takes the lexeme in front, or stops at one that is passed without a fault. -/
theorem Failed.recover {e : SyntaxError} (h : Failed xs e t) (hxs : WholeText xs) (inBlock : Bool) :
    ((t.note e).recover inBlock).Near xs inBlock := by
  have hinside : (t.note e).Inside xs := h.inside
  obtain ⟨x, hx, he, hbehind, hplace⟩ := h.place
  obtain ⟨hu, hmove⟩ := hinside.move hxs (State.recover_leads_zero inBlock (t.note e))
  have hcurrent : (t.note e).current = t.current := rfl
  refine ⟨hu, h.inOrder_note, fun d hd => ?_⟩
  -- every fault is before the lexeme that was in front, or at it
  have hd : t.current.Behind d ∨ d.span = t.current.span := by
    rcases List.mem_append.mp hd with hd | hd
    · rcases hplace with rfl | hlt
      · exact Or.inl (hbehind d hd)
      · exact Or.inl (Or.inl ((hbehind d hd).lt hlt))
    · rw [List.mem_singleton.mp hd]
      rcases hplace with rfl | hlt
      · exact Or.inr he
      · refine Or.inl (Or.inl ?_)
        rw [he]
        exact hlt
  rcases hmove with ⟨hsame, -⟩ | hlt
  · rw [hsame, hcurrent]
    rcases hd with hd | hd
    · exact Or.inl hd
    · -- what recovery does not take ends the text or is one of those it stops at
      by_cases heof : t.current.token = .eof
      · exact Or.inl (Or.inr ⟨heof, hd⟩)
      · refine Or.inr ⟨hd, ?_⟩
        exact halts_of_recover (s := t.note e) hxs hinside heof (by rw [hsame]; exact Nat.lt_irrefl _)
  · rw [hcurrent] at hlt
    rcases hd with hd | hd
    · exact Or.inl (Or.inl (hd.lt hlt))
    · refine Or.inl (Or.inl ?_)
      rw [hd]
      exact hlt

end Moves

/-! ## Rules that find faults in order -/

/-- A result leaves a tidy state, and a fault is one behind those that are noted. -/
def Reply.Orders {α : Type} (xs : List Lexeme) : Reply α → Prop
  | .ok _ t => t.Tidy xs
  | .error e t => Failed xs e t
  | .starved => True

/-- From the state, if it is tidy, the rule finds faults in order. -/
def Rule.OrdersAt {α : Type} (xs : List Lexeme) (s : State) (r : Rule α) : Prop :=
  s.Tidy xs → (r s).Orders xs

/-- From every tidy state the rule finds faults in order. -/
def Rule.Orders {α : Type} (xs : List Lexeme) (r : Rule α) : Prop := ∀ s : State, r.OrdersAt xs s

namespace Rule

variable {α β : Type} {xs : List Lexeme} {s : State}

theorem OrdersAt.bind {r : Rule α} {f : α → Rule β} (h : r.OrdersAt xs s)
    (hf : ∀ a, (f a).Orders xs) : (r >>= f).OrdersAt xs s := by
  intro hs
  have hfirst := h hs
  rw [bind_apply]
  cases hr : r s with
  | ok a t =>
    rw [hr] at hfirst
    exact hf a t hfirst
  | error e t =>
    rw [hr] at hfirst
    exact hfirst
  | starved => trivial

theorem Orders.bind {r : Rule α} {f : α → Rule β} (h : r.Orders xs) (hf : ∀ a, (f a).Orders xs) :
    (r >>= f).Orders xs :=
  fun s => (h s).bind hf

variable (hxs : WholeText xs)

include hxs

end Rule

/-! ## The rules over their parts -/

namespace Grammar

open Rule

section Parts

variable {xs : List Lexeme} {expr : ExprRule} {block : Rule Block} {s : State}

variable (hxs : WholeText xs)

include hxs

variable (he : ∀ l, (expr l).Orders xs) (hb : block.Orders xs)

include he

include hb

omit hb

include hb

end Parts

/-! ### The recursive rules -/

variable {xs : List Lexeme} (hxs : WholeText xs)

include hxs

end Grammar

/-! ## Whole texts -/

theorem SyntaxError.Follows.le {xs : List Lexeme} {d e : SyntaxError} (h : d.Follows xs e) :
    d.span.start ≤ e.span.start := by
  rcases h with hlt | ⟨z, -, -, hd, he⟩
  · exact Nat.le_of_lt hlt
  · exact Nat.le_of_eq (congrArg Span.start (hd.trans he.symm))

/-- The parenthesis is passed, and each of the two blocks misses its brace at the end. -/
example : (parse "\x7b \x7b a )").errors.map (·.span) = [⟨6, 7⟩, ⟨7, 7⟩, ⟨7, 7⟩] := by
  decide +kernel

end Scriptlet
