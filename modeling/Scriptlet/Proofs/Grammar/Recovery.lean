import Scriptlet.Proofs.Grammar.Simulation

/-!
# `Proofs.Grammar.Recovery` — a broken statement ends at its semicolon

Recovery counts only the braces it passes itself, and a fault may come at any depth, with braces open
that recovery knows nothing of. That it still ends at the right place is a matter of the braces that
are open in the text: the rules at work never hold more of them than there are. So a semicolon outside
of all braces is met by a rule that is at work on none, and what stands after it is read as if nothing
stood before.

## Contents
- `BracesBalanced`: no beginning of the lexemes closes more braces than it opens, all of them as many.
- `Closes depth`: the same behind `depth` open braces, and what it says about the first lexeme.
- `Before`: two texts that differ only behind some lexeme. `beforeSemicolon_simulation`: up to a
  semicolon what stands after it does not matter.
- `shifted_simulation`: the faults noted so far do not matter.
- `parseLexemes_append_semicolon`: statements and faults of the parts are those of the whole.
-/

namespace Scriptlet

/-! ## Balanced braces -/

/-- How many braces the lexemes open. -/
def opened (xs : List Lexeme) : Nat := xs.countP (·.token = .leftBrace)

/-- How many braces the lexemes close. -/
def closed (xs : List Lexeme) : Nat := xs.countP (·.token = .rightBrace)

theorem opened_cons (x : Lexeme) (xs : List Lexeme) : opened (x :: xs) = opened [x] + opened xs := by
  rw [← List.singleton_append]
  exact List.countP_append

theorem closed_cons (x : Lexeme) (xs : List Lexeme) : closed (x :: xs) = closed [x] + closed xs := by
  rw [← List.singleton_append]
  exact List.countP_append

/-- No beginning closes more braces than it opens, and all of them close as many as they open. -/
structure BracesBalanced (xs : List Lexeme) : Prop where
  beginnings : ∀ ys, ys <+: xs → closed ys ≤ opened ys
  totals : closed xs = opened xs

theorem bracesBalanced_iff {xs : List Lexeme} :
    BracesBalanced xs ↔
      (∀ n < xs.length, closed (xs.take n) ≤ opened (xs.take n)) ∧ closed xs = opened xs := by
  constructor
  · intro h
    exact ⟨fun n _ => h.beginnings _ (List.take_prefix n xs), h.totals⟩
  · rintro ⟨htake, htotals⟩
    refine ⟨fun ys hys => ?_, htotals⟩
    rw [List.prefix_iff_eq_take.mp hys]
    by_cases hlen : ys.length < xs.length
    · exact htake _ hlen
    · rw [List.take_of_length_le (Nat.le_of_not_lt hlen)]
      exact Nat.le_of_eq htotals

instance (xs : List Lexeme) : Decidable (BracesBalanced xs) :=
  decidable_of_iff _ bracesBalanced_iff.symm

/-- The lexemes close `depth` braces that are open before them, and all they open themselves. -/
structure Closes (depth : Nat) (xs : List Lexeme) : Prop where
  beginnings : ∀ ys, ys <+: xs → closed ys ≤ depth + opened ys
  totals : closed xs = depth + opened xs

theorem BracesBalanced.closes {xs : List Lexeme} (h : BracesBalanced xs) : Closes 0 xs where
  beginnings := by
    intro ys hys
    rw [Nat.zero_add]
    exact h.beginnings ys hys
  totals := by rw [Nat.zero_add, h.totals]

namespace Closes

variable {depth : Nat} {x : Lexeme} {xs : List Lexeme}

/-- Nothing closes no brace. -/
theorem depth_eq_zero (h : Closes depth []) : depth = 0 := by
  have htotals := h.totals
  simp only [closed, opened, List.countP_nil] at htotals
  omega

/-- The lexemes after the first one, if it changes the depth to another. -/
theorem tail {depth' : Nat} (h : Closes depth (x :: xs))
    (hx : depth + opened [x] = depth' + closed [x]) : Closes depth' xs := by
  constructor
  · intro ys hys
    have hle := h.beginnings (x :: ys) (List.cons_prefix_cons.mpr ⟨rfl, hys⟩)
    rw [opened_cons, closed_cons] at hle
    omega
  · have htotals := h.totals
    rw [opened_cons, closed_cons] at htotals
    omega

theorem tail_other (h : Closes depth (x :: xs)) (hl : x.token ≠ .leftBrace)
    (hr : x.token ≠ .rightBrace) : Closes depth xs :=
  h.tail (by simp [opened, closed, hl, hr])

theorem tail_leftBrace (h : Closes depth (x :: xs)) (hx : x.token = .leftBrace) :
    Closes (depth + 1) xs :=
  h.tail (by simp [opened, closed, hx])

/-- A brace that is closed was open. -/
theorem tail_rightBrace (h : Closes depth (x :: xs)) (hx : x.token = .rightBrace) :
    ∃ d, depth = d + 1 ∧ Closes d xs := by
  have hle := h.beginnings [x] (List.prefix_append [x] xs)
  simp only [closed, opened, hx, List.countP_cons, List.countP_nil] at hle
  obtain ⟨d, rfl⟩ : ∃ d, depth = d + 1 := ⟨depth - 1, by simp at hle; omega⟩
  exact ⟨d, rfl, h.tail (by simp [opened, closed, hx])⟩

end Closes

namespace Grammar

/-! ## Up to a semicolon -/

/-- Two states before the same lexeme, with different lexemes after it. Between them and that lexeme
    there is no end of the text, and no fewer than `depth` open braces are closed. -/
def Before (mark : Lexeme) (zs zs' : List Lexeme) (depth : Nat) (s s' : State) : Prop :=
  ∃ xs d stop errors, Closes d xs ∧ depth ≤ d ∧ (∀ x ∈ xs, x.token ≠ .eof) ∧
    s = ⟨xs ++ mark :: zs, stop, errors⟩ ∧ s' = ⟨xs ++ mark :: zs', stop, errors⟩

/-- Two states before the same semicolon. -/
abbrev BeforeSemicolon (semi : Lexeme) (zs zs' : List Lexeme) (depth : Nat) (s s' : State) : Prop :=
  Before semi zs zs' depth s s'

/-- Two states right after the semicolon. -/
def AfterSemicolon (semi : Lexeme) (zs zs' : List Lexeme) (s s' : State) : Prop :=
  ∃ errors, s = ⟨zs, semi.stop, errors⟩ ∧ s' = ⟨zs', semi.stop, errors⟩

namespace Before

variable {mark : Lexeme} {zs zs' : List Lexeme} {depth : Nat} {s s' : State}

theorem current_eq (h : Before mark zs zs' depth s s') : s.current = s'.current := by
  obtain ⟨xs, d, stop, errors, -, -, -, rfl, rfl⟩ := h
  cases xs <;> rfl

theorem weaken (h : Before mark zs zs' (depth + 1) s s') : Before mark zs zs' depth s s' := by
  obtain ⟨xs, d, stop, errors, hc, hd, heof, hs, hs'⟩ := h
  exact ⟨xs, d, stop, errors, hc, Nat.le_of_succ_le hd, heof, hs, hs'⟩

theorem note (e : SyntaxError) (h : Before mark zs zs' depth s s') :
    Before mark zs zs' depth (s.note e) (s'.note e) := by
  obtain ⟨xs, d, stop, errors, hc, hd, heof, rfl, rfl⟩ := h
  exact ⟨xs, d, stop, errors ++ [e], hc, hd, heof, rfl, rfl⟩

/-- No rule sees the end of the text before the lexeme. -/
theorem current_ne_eof (hmark : mark.token ≠ .eof) (h : Before mark zs zs' depth s s') :
    s.current.token ≠ .eof := by
  obtain ⟨xs, d, stop, errors, -, -, heof, rfl, -⟩ := h
  cases xs with
  | nil => exact hmark
  | cons x xs => exact heof x List.mem_cons_self

/-- A step over another lexeme, which turns the depth into another. -/
theorem step_of_closes {depth' : Nat} (h : Before mark zs zs' depth s s')
    (hnil : ∀ d, depth ≤ d → Closes d [] → s.current = mark → False)
    (hcons : ∀ d xs, depth ≤ d → Closes d (s.current :: xs) → ∃ e, depth' ≤ e ∧ Closes e xs) :
    Before mark zs zs' depth' s.step s'.step := by
  obtain ⟨xs, d, stop, errors, hc, hd, heof, rfl, rfl⟩ := h
  cases xs with
  | nil => exact (hnil d hd hc rfl).elim
  | cons x xs =>
    obtain ⟨e, he, hce⟩ := hcons d xs hd hc
    refine ⟨xs, e, x.stop, errors, hce, he, ?_, rfl, rfl⟩
    intro y hy
    exact heof y (List.mem_cons_of_mem x hy)

/-- A step over a lexeme of another kind that is no brace. -/
theorem step (h : Before mark zs zs' depth s s') (hmark : s.current.token ≠ mark.token)
    (hl : s.current.token ≠ .leftBrace) (hr : s.current.token ≠ .rightBrace) :
    Before mark zs zs' depth s.step s'.step := by
  refine h.step_of_closes (fun d _ _ hcur => ?_) fun d xs hd hc => ⟨d, hd, hc.tail_other hl hr⟩
  rw [hcur] at hmark
  exact hmark rfl

theorem opens (h : Before mark zs zs' depth s s') (hmark : mark.token ≠ .leftBrace)
    (hl : s.current.token = .leftBrace) : Before mark zs zs' (depth + 1) s.step s'.step := by
  refine h.step_of_closes (fun d _ _ hcur => ?_) fun d xs hd hc =>
    ⟨d + 1, Nat.succ_le_succ hd, hc.tail_leftBrace hl⟩
  rw [hcur] at hl
  exact hmark hl

/-- Where a rule holds a brace open the lexeme is not in front. -/
theorem closes (h : Before mark zs zs' (depth + 1) s s') (hr : s.current.token = .rightBrace) :
    Before mark zs zs' depth s.step s'.step := by
  refine h.step_of_closes (fun d hd hc _ => ?_) fun d xs hd hc => ?_
  · have hzero := hc.depth_eq_zero
    omega
  · obtain ⟨e, rfl, hce⟩ := hc.tail_rightBrace hr
    exact ⟨e, Nat.le_of_succ_le_succ hd, hce⟩

theorem semicolon (h : Before mark zs zs' (depth + 1) s s')
    (hsemi : s.current.token = .semicolon) : Before mark zs zs' (depth + 1) s.step s'.step := by
  refine h.step_of_closes (fun d hd hc _ => ?_) fun d xs hd hc =>
    ⟨d, hd, hc.tail_other (by simp [hsemi]) (by simp [hsemi])⟩
  have hzero := hc.depth_eq_zero
  omega

end Before

theorem BeforeSemicolon.current_ne_eof {semi : Lexeme} {zs zs' : List Lexeme} {depth : Nat}
    {s s' : State} (hsemi : semi.token = .semicolon) (h : BeforeSemicolon semi zs zs' depth s s') :
    s.current.token ≠ .eof :=
  Before.current_ne_eof (by simp [hsemi]) h

/-- What stands after a semicolon outside of all braces is not seen before it. -/
theorem beforeSemicolon_simulation {semi : Lexeme} (hsemi : semi.token = .semicolon)
    (zs zs' : List Lexeme) :
    TopSimulation (BeforeSemicolon semi zs zs') (AfterSemicolon semi zs zs') where
  current h := h.current_eq
  weaken h := h.weaken
  step h hsem hl hr := h.step (by rwa [hsemi]) hl hr
  opens h hl := h.opens (by simp [hsemi]) hl
  closes h hr := h.closes hr
  semicolon h hsem := h.semicolon hsem
  stray s s' h hr := by
    refine h.step_of_closes (fun d _ _ hcur => ?_) fun d xs hd hc => ?_
    · rw [hcur, hsemi] at hr
      simp at hr
    · obtain ⟨e, rfl, hce⟩ := hc.tail_rightBrace hr
      exact ⟨e, Nat.zero_le e, hce⟩
  crosses h hsem := by
    obtain ⟨xs, d, stop, errors, hc, hd, heof, rfl, rfl⟩ := h
    cases xs with
    | nil => exact Or.inr ⟨errors, rfl, rfl⟩
    | cons x xs =>
      have hx : x.token = .semicolon := hsem
      left
      refine ⟨xs, d, x.stop, errors, hc.tail_other (by simp [hx]) (by simp [hx]), hd, ?_, rfl, rfl⟩
      intro y hy
      exact heof y (List.mem_cons_of_mem x hy)
  note e h := h.note e

/-! ## After other faults -/

/-- Two states with the same lexemes left, the first one with more faults noted before. -/
structure Shifted (noted : List SyntaxError) (s s' : State) : Prop where
  rest : s.rest = s'.rest
  stop : s.rest = [] → s.stop = s'.stop
  errors : s.errors = noted ++ s'.errors

theorem Shifted.current {noted : List SyntaxError} {s s' : State} (h : Shifted noted s s') :
    s.current = s'.current := by
  unfold State.current
  rw [← h.rest]
  cases hr : s.rest with
  | nil => rw [h.stop hr]
  | cons x xs => rfl

theorem Shifted.step {noted : List SyntaxError} {s s' : State} (h : Shifted noted s s') :
    Shifted noted s.step s'.step := by
  obtain ⟨hrest, hstop, herrors⟩ := h
  unfold State.step
  rw [← hrest]
  split
  · exact ⟨hrest, hstop, herrors⟩
  · exact ⟨rfl, fun _ => rfl, herrors⟩

/-- Faults noted before are never looked at. -/
theorem shifted_simulation (noted : List SyntaxError) :
    TopSimulation (fun _ => Shifted noted) fun _ _ => False where
  current h := h.current
  weaken h := h
  step h _ _ _ := h.step
  opens h _ := h.step
  closes h _ := h.step
  stray _ _ h _ := h.step
  semicolon h _ := h.step
  crosses h _ := Or.inl h.step
  note e h := by
    refine ⟨h.rest, h.stop, ?_⟩
    show _ ++ [e] = noted ++ (_ ++ [e])
    rw [h.errors, List.append_assoc]

/-- Statements read after other lexemes and other faults are those of the lexemes alone. -/
theorem readStatements_shifted (xs : List Lexeme) (stop : Nat) (noted : List SyntaxError) :
    ∃ u, readStatements false ⟨xs, stop, noted⟩ =
        .ok (parseLexemes xs).program.statements u ∧
      u.errors = noted ++ (parseLexemes xs).errors := by
  cases xs with
  | nil =>
    refine ⟨⟨[], stop, noted⟩, readStatements_end rfl, ?_⟩
    exact (List.append_nil noted).symm
  | cons x xs =>
    have hs : Shifted noted ⟨x :: xs, stop, noted⟩ (State.ofLexemes (x :: xs)) :=
      ⟨rfl, fun h => absurd h (List.cons_ne_nil x xs), (List.append_nil noted).symm⟩
    obtain ⟨ss, t, t', ht, hb, hb'⟩ := (shifted_simulation noted).readStatements_simulates hs
    obtain ⟨hshift, heof⟩ := ht.resolve_left id
    have heof' : t'.current.token = .eof := hshift.current ▸ heof
    have hread := hb [] t (readStatements_end (by rw [heof]; rfl))
    have hread' := hb' [] t' (readStatements_end (by rw [heof']; rfl))
    rw [parseLexemes_eq hread']
    exact ⟨t, hread, hshift.errors⟩

/-! ## The two parts of a text -/

/-- The lexemes before a semicolon outside of all braces, however malformed, and those after it, however
    malformed: each part gives its own statements and its own faults. -/
theorem parseLexemes_append_semicolon {xs ys : List Lexeme} {semi : Lexeme}
    (hsemi : semi.token = .semicolon) (hbraces : BracesBalanced xs)
    (heof : ∀ x ∈ xs, x.token ≠ .eof) :
    (parseLexemes (xs ++ semi :: ys)).program.statements =
        (parseLexemes (xs ++ [semi])).program.statements ++ (parseLexemes ys).program.statements ∧
      (parseLexemes (xs ++ semi :: ys)).errors =
        (parseLexemes (xs ++ [semi])).errors ++ (parseLexemes ys).errors := by
  have hs : BeforeSemicolon semi ys [] 0 (State.ofLexemes (xs ++ semi :: ys))
      (State.ofLexemes (xs ++ [semi])) :=
    ⟨xs, 0, 0, [], hbraces.closes, Nat.le_refl 0, heof, rfl, rfl⟩
  obtain ⟨ss, t, t', ht, hb, hb'⟩ :=
    (beforeSemicolon_simulation hsemi ys []).readStatements_simulates hs
  rcases ht with ⟨errors, rfl, rfl⟩ | ⟨hbefore, hend⟩
  · -- both texts have come past the semicolon; the shorter one ends there
    obtain ⟨u, hread, herrors⟩ := readStatements_shifted ys semi.stop errors
    have hwhole := parseLexemes_eq (hb _ u hread)
    have hfirst := parseLexemes_eq (hb' [] ⟨[], semi.stop, errors⟩ (readStatements_end rfl))
    rw [hwhole, hfirst, List.append_nil]
    exact ⟨rfl, herrors⟩
  · exact absurd hend (hbefore.current_ne_eof hsemi)

/-- In `let x { ; ) } ; y` the brace opens after the fault, and its semicolon ends nothing. -/
theorem parseLexemes_append_semicolon_brokenLet :
    let broken : List Lexeme := [⟨0, .kwLet, 3⟩, ⟨4, .ident "x", 5⟩, ⟨6, .leftBrace, 7⟩,
      ⟨8, .semicolon, 9⟩, ⟨10, .rightParen, 11⟩, ⟨12, .rightBrace, 13⟩]
    let semi : Lexeme := ⟨14, .semicolon, 15⟩
    let next : List Lexeme := [⟨16, .ident "y", 17⟩]
    BracesBalanced broken ∧ (∀ x ∈ broken, x.token ≠ .eof) ∧
      (parseLexemes (broken ++ semi :: next)).program.statements =
        (parseLexemes (broken ++ [semi])).program.statements ++
          (parseLexemes next).program.statements ∧
      (parseLexemes (broken ++ semi :: next)).errors =
        (parseLexemes (broken ++ [semi])).errors ++ (parseLexemes next).errors ∧
      (parseLexemes (broken ++ semi :: next)).errors.length = 1 := by
  intro broken semi next
  have hbraces : BracesBalanced broken := by decide
  have heof : ∀ x ∈ broken, x.token ≠ .eof := by decide
  obtain ⟨hstatements, herrors⟩ :=
    parseLexemes_append_semicolon (show semi.token = .semicolon from rfl) hbraces heof
  exact ⟨hbraces, heof, hstatements, herrors, by decide⟩

end Grammar

end Scriptlet
