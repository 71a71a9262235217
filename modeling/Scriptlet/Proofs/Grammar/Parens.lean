import Scriptlet.Proofs.Grammar.Alone
import Scriptlet.Proofs.Grammar.Balanced
import Scriptlet.Proofs.Grammar.Spelled
import Scriptlet.Proofs.Syntax.Seats

/-!
# `Proofs.Grammar.Parens` — parentheses that are needed

The canonical form puts some operands in parentheses. Without these the text of the operation around
the operand is no longer one of the same tree. For were it, the operand's words would be written with
the operand. Not as something in parentheses, since what they start with is closed before they end; so
with the head and the tail that the operand has of its own. But the canonical form leaves parentheses
out wherever the seat allows for this head and this tail.

## Contents
- `Expr.words_starts`, `Expr.words_balanced`, `Expr.filter_words`: the words of an expression.
- `Written.enclosed_or`: operations are written in parentheses or with their own head and tail.
  `Written.head_tail_of_words`: with their words in front, never in parentheses.
- `Seat.fits_of_written`: what is written without parentheses in a seat fits it.
- `Expr.ofText?_layout`: the canonical text of an expression is this expression.
- `Seat.layout_enclosed_iff`: the canonical form encloses an operand where its parentheses are needed.
-/

namespace Scriptlet

/-! ## The words of an expression -/

section Words

variable {e : Expr} {ts us : List Token}

/-- Lexemes with the words of an expression, wherever they stand. -/
theorem Expr.exists_written (h : e.Spelled) : ∃ e' xs, Written (.expr e.head e.tail e') xs ∧
    xs.map Lexeme.token = e.words ∧ e'.normal = e.normal := by
  have hmap : (e.words.map fun t => Lexeme.mk 0 t 0).map Lexeme.token = e.words := by
    rw [List.map_map]
    exact List.map_id _
  obtain ⟨e', hwritten, hnormal⟩ := Expr.words_written e h _ hmap
  exact ⟨e', _, hwritten, hmap, hnormal⟩

/-- The tokens do not start with a blank line, and there are some. -/
def StartsWord (ts : List Token) : Prop := ∃ t us, ts = t :: us ∧ NotBlank t

theorem StartsWord.ne_nil (h : StartsWord ts) : ts ≠ [] := by
  obtain ⟨t, us, rfl, -⟩ := h
  exact List.cons_ne_nil t us

theorem StartsWord.append (h : StartsWord ts) (us : List Token) : StartsWord (ts ++ us) := by
  obtain ⟨t, ts, rfl, ht⟩ := h
  exact ⟨t, ts ++ us, rfl, ht⟩

theorem StartsWord.wrap (h : StartsWord ts) (wanted : Bool) : StartsWord (wrapWords wanted ts) := by
  cases wanted with
  | false => exact h
  | true => exact ⟨_, _, rfl, nofun⟩

theorem Blanks.eq_nil {bs : List Lexeme} (hb : Blanks bs) (h : StartsWord ts)
    (heq : bs.map Lexeme.token ++ us = ts) : bs = [] := by
  obtain ⟨t, ts, rfl, ht⟩ := h
  cases bs with
  | nil => rfl
  | cons b bs =>
    have hblank : b.token = .blankLine := hb b List.mem_cons_self
    exact absurd ((List.cons.inj heq).1.symm.trans hblank) ht

theorem Expr.startsWord_words (h : e.Spelled) : StartsWord e.words := by
  obtain ⟨e', xs, hwritten, hxs, -⟩ := Expr.exists_written h
  obtain ⟨x, ys, rfl, hx⟩ := hwritten.starts
  exact ⟨x.token, ys.map Lexeme.token, hxs.symm, notBlank_of_startsExpr hx⟩

theorem Expr.words_balanced (h : e.Spelled) : Balanced e.words := by
  obtain ⟨e', xs, hwritten, hxs, -⟩ := Expr.exists_written h
  rw [← hxs]
  exact hwritten.balanced

/-- Of its words an expression keeps its tokens. -/
theorem Expr.filter_words (h : e.Spelled) : e.words.filter Token.isKept = e.tokens := by
  obtain ⟨e', xs, hwritten, hxs, hnormal⟩ := Expr.exists_written h
  rw [← hxs]
  exact hwritten.keptTokens_of_normal hnormal

theorem filter_wrapWords (wanted : Bool) (ts : List Token) :
    (wrapWords wanted ts).filter Token.isKept = ts.filter Token.isKept := by
  cases wanted with
  | false => rfl
  | true => simp [wrapWords, Token.isKept]

/-- Tokens in front of which as many are kept are the same ones. -/
theorem eq_of_filter_eq {t t' : Token} {vs ws : List Token} (ht : t.isKept = true)
    (ht' : t'.isKept = true) (h : ts ++ t :: vs = us ++ t' :: ws)
    (hkept : ts.filter Token.isKept = us.filter Token.isKept) : vs = ws := by
  have hlength := congrArg List.length hkept
  rcases List.append_eq_append_iff.mp h with ⟨ms, rfl, hms⟩ | ⟨ms, rfl, hms⟩
  · cases ms with
    | nil => exact (List.cons.inj hms).2
    | cons m ms =>
      obtain ⟨rfl, -⟩ := List.cons.inj hms
      simp [ht] at hlength
  · cases ms with
    | nil => exact (List.cons.inj hms).2.symm
    | cons m ms =>
      obtain ⟨rfl, -⟩ := List.cons.inj hms
      simp [ht'] at hlength

end Words

/-! ## How an operation is written -/

section Operations

variable {head tail : Nat} {e f : Expr} {xs : List Lexeme}

theorem enclosed_group {x z : Lexeme} {ys bs : List Lexeme} (hx : x.token = .leftParen)
    (he : Written (.whole e) ys) (hb : Blanks bs) (hz : z.token = .rightParen) :
    Enclosed ((x :: (ys ++ (bs ++ [z]))).map Lexeme.token) := by
  refine ⟨(ys ++ bs).map Lexeme.token, he.balanced.append_lexemes hb.balanced, ?_⟩
  simp [hx, hz]

/-- A single lexeme is an expression without parts. -/
theorem Lexeme.children_of_leaf? {x : Lexeme} (h : x.leaf? = some e) : e.children = [] := by
  unfold leaf? at h
  split at h
  · cases h
    rfl
  · obtain ⟨value, -, rfl⟩ := Option.map_eq_some_iff.mp h
    rfl
  · obtain ⟨value, -, rfl⟩ := Option.map_eq_some_iff.mp h
    rfl
  · cases h
    rfl
  · cases h
    rfl
  · cases h
    rfl
  · cases h

theorem Expr.children_ne_nil (h : isOperation e = true) : e.children ≠ [] := by
  cases e with
  | unary | binary => exact List.cons_ne_nil _ _
  | ident | int | float | bool | str | array | hash | cond | loop | func | call | index => cases h

/-- An operation stands between parentheses, or it has its own head and no more than its own tail. -/
theorem Written.enclosed_or (h : Written (.expr head tail e) xs) (hop : isOperation e = true) :
    Enclosed (xs.map Lexeme.token) ∨ (head = e.head ∧ tail ≤ e.tail) := by
  cases h with
  | leaf h => exact absurd (Lexeme.children_of_leaf? h) (Expr.children_ne_nil hop)
  | group hx he hb hz => exact Or.inl (enclosed_group hx he hb hz)
  | unary => exact Or.inr ⟨rfl, Nat.le_refl _⟩
  | binary hl hhead htail hx hb hr hhead' hk hk' => exact Or.inr ⟨rfl, hk⟩
  | array | hash | cond | condElse | loop | func | call | index => cases hop

theorem Expr.head_normal (e : Expr) : e.normal.head = e.head := by cases e <;> rfl

theorem Expr.tail_normal (e : Expr) : e.normal.tail = e.tail := by cases e <;> rfl

/-- What is written with an operation and begins as the operation's words do is not enclosed. These
    begin with an operator, or with a left operand that is closed before the operator. -/
theorem Written.not_enclosed_of_words {us vs : List Token} (h : Written (.expr head tail f) xs)
    (he : e.Spelled) (hop : isOperation e = true) (hnormal : f.normal = e.normal)
    (hfront : e.words ++ us = xs.map Lexeme.token ++ vs) : ¬ Enclosed (xs.map Lexeme.token) := by
  intro henclosed
  have hkept : (xs.map Lexeme.token).filter Token.isKept = e.tokens :=
    h.keptTokens_of_normal hnormal
  cases e with
  | unary op operand span =>
    obtain ⟨ms, -, hms⟩ := henclosed
    rw [hms] at hfront
    cases op <;> cases (List.cons.inj hfront).1
  | binary l op r span =>
    -- the words of the left operand are closed before the operator, so the parentheses are too
    let first := wrapWords (needsParens l op false) l.words
    have hfirst : Balanced first := (Expr.words_balanced he.1).wrap _
    have hne : first ≠ [] := ((Expr.startsWord_words he.1).wrap _).ne_nil
    unfold Expr.words at hfront
    rw [List.append_assoc, List.append_assoc] at hfront
    have hlength := hfirst.length_ge_of_enclosed hne henclosed hfront
    have hbegin : xs.map Lexeme.token <+: first :=
      List.prefix_of_prefix_length_le ⟨vs, rfl⟩ ⟨_, hfront⟩ hlength
    have hfewer := (hbegin.filter Token.isKept).length_le
    have htokens : (Expr.binary l op r span).tokens = l.tokens ++ [.operator op] ++ r.tokens := rfl
    rw [hkept, htokens, filter_wrapWords, Expr.filter_words he.1] at hfewer
    simp only [List.length_append, List.length_singleton] at hfewer
    omega
  | ident | int | float | bool | str | array | hash | cond | loop | func | call | index => cases hop

/-- What is written with an operation and begins as the operation's words do has the operation's head
    and no more than its tail. -/
theorem Written.head_tail_of_words {us vs : List Token} (h : Written (.expr head tail f) xs)
    (he : e.Spelled) (hop : isOperation e = true) (hnormal : f.normal = e.normal)
    (hfront : e.words ++ us = xs.map Lexeme.token ++ vs) : head = e.head ∧ tail ≤ e.tail := by
  have hopf : isOperation f = true := by
    rw [← isOperation_normal, hnormal, isOperation_normal, hop]
  have hown := (h.enclosed_or hopf).resolve_left (h.not_enclosed_of_words he hop hnormal hfront)
  rwa [← Expr.head_normal, ← Expr.tail_normal, hnormal, Expr.head_normal, Expr.tail_normal] at hown

end Operations

/-! ## The parts of an operation -/

section Parts

variable {head tail : Nat} {e x y : Expr} {s : Span} {xs : List Lexeme}
  (h : Written (.expr head tail e) xs) (hbare : ¬ Enclosed (xs.map Lexeme.token))

include h hbare

theorem Written.unary_parts {op : UnaryOp} (hnormal : e.normal = .unary op x s) :
    ∃ head' tail' x' z bs ys, xs = z :: (bs ++ ys) ∧ x'.normal = x ∧ Blanks bs ∧
      Written (.expr head' tail' x') ys ∧ Precedence.unary.rank < head' := by
  cases h with
  | leaf hleaf =>
    cases e with
    | unary => cases Lexeme.children_of_leaf? hleaf
    | _ => cases hnormal
  | group hz he hb hz' => exact absurd (enclosed_group hz he hb hz') hbare
  | unary hz hb he hhead htail =>
    cases hnormal
    exact ⟨_, _, _, _, _, _, rfl, rfl, hb, he, hhead⟩
  | array | hash | binary | cond | condElse | loop | func | call | index => cases hnormal

theorem Written.binary_parts {op : BinaryOp} (hnormal : e.normal = .binary x op y s) :
    ∃ head₁ tail₁ head₂ tail₂ x' y' z bs ys zs, xs = ys ++ z :: (bs ++ zs) ∧ x'.normal = x ∧
      y'.normal = y ∧ z.token = .operator op ∧ Blanks bs ∧ Written (.expr head₁ tail₁ x') ys ∧
      Written (.expr head₂ tail₂ y') zs ∧ op.precedence.rank ≤ head₁ ∧
      op.precedence.rank ≤ tail₁ ∧ op.rightPrecedence.rank < head₂ := by
  cases h with
  | leaf hleaf =>
    cases e with
    | binary => cases Lexeme.children_of_leaf? hleaf
    | _ => cases hnormal
  | group hz he hb hz' => exact absurd (enclosed_group hz he hb hz') hbare
  | binary hl hhead htail hz hb hr hhead' =>
    cases hnormal
    exact ⟨_, _, _, _, _, _, _, _, _, _, rfl, rfl, rfl, hz, hb, hl, hr, hhead, htail, hhead'⟩
  | array | hash | unary | cond | condElse | loop | func | call | index => cases hnormal

theorem Written.call_parts {es : List Expr} (hnormal : e.normal = .call x es s) :
    ∃ x' ys zs, xs = ys ++ zs ∧ x'.normal = x ∧ Written (.expr tight tight x') ys := by
  cases h with
  | leaf hleaf =>
    cases e with
    | call => cases Lexeme.children_of_leaf? hleaf
    | _ => cases hnormal
  | group hz he hb hz' => exact absurd (enclosed_group hz he hb hz') hbare
  | call hf =>
    cases hnormal
    exact ⟨_, _, _, rfl, rfl, hf⟩
  | array | hash | unary | binary | cond | condElse | loop | func | index => cases hnormal

theorem Written.index_parts (hnormal : e.normal = .index x y s) :
    ∃ x' ys zs, xs = ys ++ zs ∧ x'.normal = x ∧ Written (.expr tight tight x') ys := by
  cases h with
  | leaf hleaf =>
    cases e with
    | index => cases Lexeme.children_of_leaf? hleaf
    | _ => cases hnormal
  | group hz he hb hz' => exact absurd (enclosed_group hz he hb hz') hbare
  | index ht =>
    cases hnormal
    exact ⟨_, _, _, rfl, rfl, ht⟩
  | array | hash | unary | binary | cond | condElse | loop | func | call => cases hnormal

end Parts

/-! ## Operands without parentheses -/

namespace Seat

variable {seat : Seat} {x e : Expr} {head tail : Nat} {xs : List Lexeme}

/-- The words of an operation start with an operator or with something that is closed before they
    end. -/
theorem not_enclosed_words (h : (seat.fill x).Spelled) : ¬ Enclosed (seat.words x.words) := by
  have hx := spelled_operand h
  have hfirst := Expr.words_balanced hx
  have hne := (Expr.startsWord_words hx).ne_nil
  cases seat with
  | operand op =>
    rintro ⟨ms, -, hms⟩
    cases op <;> cases (List.cons.inj hms).1
  | left op r =>
    rw [words, List.append_assoc]
    exact hfirst.not_enclosed_append hne (List.cons_ne_nil _ _)
  | right l op =>
    rw [words, List.append_assoc]
    exact ((Expr.words_balanced h.1).wrap _).not_enclosed_append
      ((Expr.startsWord_words h.1).wrap _).ne_nil (List.cons_ne_nil _ _)
  | callee | target =>
    rw [words, List.append_assoc, List.append_assoc]
    exact hfirst.not_enclosed_append hne (List.cons_ne_nil _ _)

/-- Where the words of an operation without the operand's parentheses are written with the operation,
    the operand's words stand in front of what is written with the operand, and that fits the seat. -/
theorem exists_operand (h : (seat.fill x).Spelled) (hwritten : Written (.expr head tail e) xs)
    (hxs : xs.map Lexeme.token = seat.words x.words) (hnormal : e.normal = (seat.fill x).normal) :
    ∃ head' tail' x' ys us vs, Written (.expr head' tail' x') ys ∧ x'.normal = x.normal ∧
      seat.Fits head' tail' ∧ x.words ++ us = ys.map Lexeme.token ++ vs := by
  have hx := spelled_operand h
  have hbare : ¬ Enclosed (xs.map Lexeme.token) := hxs ▸ not_enclosed_words h
  cases seat with
  | operand op span =>
    obtain ⟨head', tail', x', z, bs, ys, rfl, hx', hb, hys, hhead⟩ :=
      hwritten.unary_parts hbare hnormal
    rw [List.map_cons, List.map_append] at hxs
    have hrest : bs.map Lexeme.token ++ ys.map Lexeme.token = x.words := (List.cons.inj hxs).2
    obtain rfl := hb.eq_nil (Expr.startsWord_words hx) hrest
    exact ⟨head', tail', x', ys, [], [], hys, hx', hhead, congrArg (· ++ []) hrest.symm⟩
  | left op r span =>
    obtain ⟨head', tail', _, _, x', r', z, bs, ys, zs, rfl, hx', -, -, -, hys, -, hhead, htail, -⟩ :=
      hwritten.binary_parts hbare hnormal
    rw [List.map_append] at hxs
    have hfront := (hxs.trans (List.append_assoc ..)).symm
    exact ⟨head', tail', x', ys, _, _, hys, hx', ⟨hhead, htail⟩, hfront⟩
  | right l op span =>
    obtain ⟨_, _, head', tail', l', x', z, bs, ls, ys, rfl, hl', hx', hz, hb, hls, hys, -, -, hhead⟩ :=
      hwritten.binary_parts hbare hnormal
    rw [List.map_append, List.map_cons, List.map_append] at hxs
    -- as much is kept of the left operand, so the operator is the same one
    have hkept : (ls.map Lexeme.token).filter Token.isKept =
        (wrapWords (needsParens l op false) l.words).filter Token.isKept := by
      rw [filter_wrapWords, Expr.filter_words h.1]
      exact hls.keptTokens_of_normal hl'
    have hrest : bs.map Lexeme.token ++ ys.map Lexeme.token = x.words :=
      eq_of_filter_eq (by rw [hz]; rfl) rfl (hxs.trans (List.append_assoc ..)) hkept
    obtain rfl := hb.eq_nil (Expr.startsWord_words hx) hrest
    exact ⟨head', tail', x', ys, [], [], hys, hx', hhead, congrArg (· ++ []) hrest.symm⟩
  | callee arguments span =>
    obtain ⟨x', ys, zs, rfl, hx', hys⟩ := hwritten.call_parts hbare hnormal
    rw [List.map_append] at hxs
    have hfront := (hxs.trans ((List.append_assoc ..).trans (List.append_assoc ..))).symm
    exact ⟨tight, tight, x', ys, _, _, hys, hx', ⟨Nat.le_refl _, Nat.le_refl _⟩, hfront⟩
  | target position span =>
    obtain ⟨x', ys, zs, rfl, hx', hys⟩ := hwritten.index_parts hbare hnormal
    rw [List.map_append] at hxs
    have hfront := (hxs.trans ((List.append_assoc ..).trans (List.append_assoc ..))).symm
    exact ⟨tight, tight, x', ys, _, _, hys, hx', ⟨Nat.le_refl _, Nat.le_refl _⟩, hfront⟩

/-- Where the words of an operation without the operand's parentheses are written with the operation,
    the canonical form has no parentheses around the operand. -/
theorem encloses_eq_false_of_written (h : (seat.fill x).Spelled)
    (hwritten : Written (.expr head tail e) xs) (hxs : xs.map Lexeme.token = seat.words x.words)
    (hnormal : e.normal = (seat.fill x).normal) : seat.encloses x = false := by
  rw [← Bool.not_eq_true]
  intro hencloses
  obtain ⟨head', tail', x', ys, us, vs, hys, hx', hfits, hfront⟩ :=
    exists_operand h hwritten hxs hnormal
  obtain ⟨rfl, htail⟩ := hys.head_tail_of_words (spelled_operand h)
    (isOperation_of_encloses hencloses) hx' hfront
  rw [(encloses_eq_false_iff seat x).mpr (hfits.mono htail)] at hencloses
  cases hencloses

theorem startsWord_words (h : (seat.fill x).Spelled) : StartsWord (seat.words x.words) := by
  have hx := Expr.startsWord_words (spelled_operand h)
  cases seat with
  | operand op => exact ⟨op.token, _, rfl, by cases op <;> exact nofun⟩
  | left => exact (hx.append _).append _
  | right => exact (((Expr.startsWord_words h.1).wrap _).append _).append _
  | callee | target => exact ((hx.append _).append _).append _

end Seat

/-! ## Texts of operations -/

section Texts

variable {indent : Indent} (hi : isSpacing indent.char = true)

include hi

/-- The canonical text of an expression is this expression, up to places and superfluous blank
    lines. -/
theorem Expr.ofText?_layout {e : Expr} (h : e.Spelled) (depth : Nat) :
    ∃ e', Expr.ofText? (e.layout indent depth) = some e' ∧ e'.normal = e.normal := by
  obtain ⟨xs, zs, hxs, hwords, hzs⟩ := split_append (Expr.layout_readAs hi e depth h).tokens
  obtain ⟨z, rfl, hz⟩ := split_singleton hzs
  obtain ⟨e', hwritten, hnormal⟩ := Expr.words_written e h xs hwords
  have hwhole : Written (.whole e') ([] ++ xs) := .whole blanks_nil (.item hwritten e.head_pos)
  exact ⟨e', Expr.ofText?_eq_some_iff.mpr ⟨xs, z, hxs, hz, hwhole⟩, hnormal⟩

/-- Where the text of an operation without the operand's parentheses is the operation, the canonical
    form leaves them out. -/
theorem Seat.encloses_eq_false_of_ofText? {seat : Seat} {x e : Expr} (h : (seat.fill x).Spelled)
    (depth : Nat)
    (hread : Expr.ofText? (seat.layout indent depth (x.layout indent depth)) = some e)
    (hnormal : e.normal = (seat.fill x).normal) : seat.encloses x = false := by
  have hx := Expr.layout_readAs hi x depth (Seat.spelled_operand h)
  obtain ⟨xs, hxs, hwhole⟩ := (Seat.layout_readAs hi depth h hx).ofText?_eq_some hread
  cases hwhole with
  | whole hb hitem =>
    rw [List.map_append] at hxs
    obtain rfl := hb.eq_nil (Seat.startsWord_words h) hxs
    cases hitem with
    | item hwritten => exact Seat.encloses_eq_false_of_written h hwritten hxs hnormal

/-- For every operand of an operation in a program that was read, the canonical form has either
    parentheses around the operand or none. It has them exactly where the operation's text without
    this one pair is no expression, or another one. -/
theorem Seat.layout_enclosed_iff {source : String} {seat : Seat} {x : Expr}
    (h : Node.Under (.program (parse source).program) (.expr (seat.fill x))) (depth : Nat) :
    let text := (seat.fill x).layout indent depth
    let bare := seat.layout indent depth (x.layout indent depth)
    let enclosed := seat.layout indent depth ("(" ++ x.layout indent depth ++ ")")
    (text = enclosed ∨ text = bare) ∧
      (text = enclosed ↔ ∀ e, Expr.ofText? bare = some e → e.normal ≠ (seat.fill x).normal) := by
  intro text bare enclosed
  have hspelled : (seat.fill x).Spelled := h.spelled (parse_spelled source)
  have htext : text = seat.layout indent depth (wrapIf (seat.encloses x) (x.layout indent depth)) :=
    seat.layout_fill x indent depth
  cases hencloses : seat.encloses x with
  | true =>
    rw [hencloses] at htext
    refine ⟨Or.inl htext, fun _ e he hnormal => ?_, fun _ => htext⟩
    rw [Seat.encloses_eq_false_of_ofText? hi hspelled depth he hnormal] at hencloses
    cases hencloses
  | false =>
    rw [hencloses] at htext
    have hbare : text = bare := htext
    refine ⟨Or.inr hbare, fun henclosed => ?_, fun hneeded => ?_⟩
    · exact absurd (henclosed.symm.trans hbare) (seat.layout_enclosed_ne indent depth _)
    · obtain ⟨e, he, hnormal⟩ := Expr.ofText?_layout hi hspelled depth
      exact absurd hnormal (hneeded e (hbare ▸ he))

omit hi

/-- A power on the left of a power needs its parentheses: without them the two group to the right. -/
theorem Seat.layout_enclosed_iff_power :
    let seat : Seat := .left .pow (.ident ⟨"c", ⟨14, 15⟩⟩) ⟨3, 15⟩
    let x : Expr := .binary (.ident ⟨"a", ⟨3, 4⟩⟩) .pow (.ident ⟨"b", ⟨8, 9⟩⟩) ⟨3, 9⟩
    Node.Under (.program (parse "f((a ** b) ** c)").program) (.expr (seat.fill x)) ∧
      isSpacing ' ' = true ∧ (seat.fill x).layout ⟨' ', 2⟩ 0 = "(a ** b) ** c" ∧
      ∀ e, Expr.ofText? "a ** b ** c" = some e → e.normal ≠ (seat.fill x).normal := by
  intro seat x
  have htree : (parse "f((a ** b) ** c)").program.statements =
      [.expr (.call (.ident ⟨"f", ⟨0, 1⟩⟩) [seat.fill x] ⟨0, 16⟩)] := by with_unfolding_all rfl
  have hunder : Node.Under (.program (parse "f((a ** b) ** c)").program) (.expr (seat.fill x)) := by
    refine .child (c := .stmt _) (List.mem_map_of_mem (by rw [htree]; exact List.mem_cons_self)) ?_
    refine .child (c := .expr _) List.mem_cons_self (.child (c := .expr (seat.fill x)) ?_ (.refl _))
    exact List.mem_cons_of_mem _ List.mem_cons_self
  have hspacing : isSpacing (Indent.mk ' ' 2).char = true := by decide
  have htext : (seat.fill x).layout ⟨' ', 2⟩ 0 = "(a ** b) ** c" := by decide +kernel
  have hiff := (Seat.layout_enclosed_iff hspacing hunder 0).2
  exact ⟨hunder, hspacing, htext, hiff.mp rfl⟩

end Texts

end Scriptlet
