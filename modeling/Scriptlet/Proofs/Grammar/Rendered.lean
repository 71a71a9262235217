import Scriptlet.Proofs.Grammar.Spelled
import Scriptlet.Proofs.Grammar.Spoken
import Scriptlet.Proofs.Syntax.Rendered

/-!
# `Proofs.Grammar.Rendered` — the text on one line is read as its tree

Where the statements of a program are told apart, its text on one line is a way to write it: every
expression in it is closed, a binding or a return ends at its semicolon, a block at its brace, and an
expression where the next statement starts with a word that cannot go on with it. Reading the text
gives the program back, without its places and its blank lines.

Where they are not told apart, the text is one of another program. `f; -1` is shown as a call of `f`.

## Contents
- `Expr.renderWords_cons`, `Stmt.renderWords_stops`: the first word of a text.
- `WrittenFirst`, `WrittenStatements`: a statement in front of others, and several behind each other.
- `Expr.renderWords_written` and the like: the words of a tree.
- `Program.parse_render`, `parse_render_parse`: the text is read as the program.
  `parse_renderFunction`: the text of a function value is read as the function.
-/

namespace Scriptlet

/-! ## How a text starts -/

/-- The first word of an expression is a brace, or goes on with an expression in front of it, only
    where this can be seen from the tree. -/
theorem Expr.renderWords_cons : ∀ e : Expr, ∃ t ts, e.renderWords = t :: ts ∧
    (e.opensBrace = false → t ≠ .leftBrace) ∧ (e.opensBracket = false → Stops t)
  | .ident _ | .int .. | .float .. | .str .. =>
    ⟨_, _, rfl, fun _ => by simp, fun _ => ⟨rfl, by simp, by simp⟩⟩
  | .bool value _ => by
    cases value with
    | false => exact ⟨_, _, rfl, fun _ => by simp, fun _ => ⟨rfl, by simp, by simp⟩⟩
    | true => exact ⟨_, _, rfl, fun _ => by simp, fun _ => ⟨rfl, by simp, by simp⟩⟩
  | .cond .. | .loop .. | .func .. =>
    ⟨_, _, rfl, fun _ => by simp, fun _ => ⟨rfl, by simp, by simp⟩⟩
  | .hash .. => ⟨_, _, rfl, fun h => (nomatch h), fun _ => ⟨rfl, by simp, by simp⟩⟩
  | .array .. | .unary .. | .binary .. | .index .. =>
    ⟨_, _, rfl, fun _ => by simp, fun h => (nomatch h)⟩
  | .call callee arguments _ => by
    obtain ⟨t, ts, hwords, hbrace, hbracket⟩ := Expr.renderWords_cons callee
    refine ⟨t, ts ++ ([.leftParen] ++ commaWords (Expr.renderWordsList arguments) ++ [.rightParen]),
      ?_, hbrace, hbracket⟩
    unfold Expr.renderWords
    rw [hwords, List.append_assoc, List.append_assoc]
    simp

/-- The first word of a statement that is told from an expression before it. -/
theorem Stmt.renderWords_stops {s : Stmt} (hs : s.isBlank = false) (h : s.standsOut true = true) :
    ∃ t ts, s.renderWords = t :: ts ∧ Stops t := by
  cases s with
  | bind | ret => exact ⟨_, _, rfl, rfl, by simp, by simp⟩
  | block body =>
    obtain ⟨statements, span⟩ := body
    exact ⟨_, _, rfl, rfl, by simp, by simp⟩
  | expr value =>
    obtain ⟨t, ts, hwords, -, hstops⟩ := value.renderWords_cons
    refine ⟨t, ts, hwords, hstops ?_⟩
    simp only [standsOut, Bool.and_eq_true, Bool.not_eq_true', Bool.true_and] at h
    exact h.2
  | blank => cases hs

theorem Stmt.isExpr_bare (s : Stmt) : s.bare.isExpr = s.isExpr := by cases s <;> rfl

/-! ## Statements behind each other -/

/-- A statement in front of others. Where it is an expression, these must not go on with it. -/
abbrev WrittenFirst (s : Stmt) (ts : List Token) : Prop :=
  WrittenAs (fun s' xs => ∀ (ys : List Lexeme) (ss : List Stmt),
    (s.isExpr = true → ∀ y ∈ ys.head?, Stops y.token) → Written (.statements ss) ys →
      Written (.statements (s' :: ss)) (xs ++ ys)) Stmt.normal s ts

/-- All lexemes with the words of the statements are written with these, and behind an expression they
    do not go on with it. -/
def WrittenStatements (afterExpr : Bool) (ss : List Stmt) : Prop :=
  ∀ xs : List Lexeme, xs.map Lexeme.token = Stmt.renderWordsList ss →
    ∃ ss', Written (.statements ss') xs ∧ ss'.map Stmt.normal = Stmt.bareList ss ∧
      (afterExpr = true → ∀ x ∈ xs.head?, Stops x.token)

section Statements

variable {s : Stmt} {ss : List Stmt} {e : Expr} {b : Block} {ts : List Token}

/-- A semicolon ends a statement, whatever comes behind it. -/
theorem WrittenAs.semicolon (h : WrittenSimple s ts) : WrittenFirst s (ts ++ [.semicolon]) := by
  intro xs hxs
  obtain ⟨ys, zs, rfl, hys, hzs⟩ := split_append hxs
  obtain ⟨z, rfl, hz⟩ := split_singleton hzs
  obtain ⟨s', hs', hnormal⟩ := h ys hys
  refine ⟨s', fun ys' ss' _ hss' => ?_, hnormal⟩
  rw [List.append_assoc]
  exact .ended hs' hz hss'

theorem writtenFirst_expr (h : WrittenSimple (.expr e) ts) : WrittenFirst (.expr e) ts :=
  h.mono fun _ _ hs _ _ hstops hss => .unended hs (hstops rfl) hss

theorem writtenFirst_block (h : WrittenBlock b ts) : WrittenFirst (.block b) ts := by
  intro xs hxs
  obtain ⟨b', hb', hnormal⟩ := h xs hxs
  refine ⟨.block b', fun _ _ _ hss => .blockStmt hb' hss, ?_⟩
  unfold Stmt.normal
  rw [hnormal]

theorem writtenStatements_nil (afterExpr : Bool) : WrittenStatements afterExpr [] := by
  intro xs hxs
  rw [List.map_eq_nil_iff.mp hxs]
  exact ⟨[], .nil, rfl, fun _ x hx => nomatch hx⟩

/-- Blank lines have no words. -/
theorem WrittenStatements.blank {afterExpr : Bool} (h : WrittenStatements afterExpr ss)
    (hs : s.isBlank = true) : WrittenStatements afterExpr (s :: ss) := by
  intro xs hxs
  unfold Stmt.renderWordsList at hxs
  rw [Stmt.renderWords_of_isBlank hs, List.nil_append] at hxs
  unfold Stmt.bareList
  rw [if_pos hs]
  exact h xs hxs

/-- A statement told from those before it and those behind it. -/
theorem WrittenStatements.cons {afterExpr : Bool} (h : WrittenStatements s.isExpr ss)
    (hs : s.isBlank = false) (hfirst : WrittenFirst s.bare s.renderWords)
    (hout : s.standsOut afterExpr = true) : WrittenStatements afterExpr (s :: ss) := by
  intro xs hxs
  obtain ⟨ys, zs, rfl, hys, hzs⟩ := split_append hxs
  obtain ⟨s', hs', hnormal⟩ := hfirst ys hys
  obtain ⟨ss', hss', hmap, hstops⟩ := h zs hzs
  refine ⟨s' :: ss', hs' zs ss' ?_ hss', ?_, ?_⟩
  · rw [Stmt.isExpr_bare]
    exact hstops
  · unfold Stmt.bareList
    rw [if_neg (by simp [hs]), List.map_cons, hnormal, hmap]
  · rintro rfl x hx
    obtain ⟨t, ts, hwords, ht⟩ := Stmt.renderWords_stops hs hout
    rw [hwords] at hys
    obtain ⟨y, ys, rfl, rfl, -⟩ := split_cons hys
    obtain rfl := Option.some.inj hx
    exact ht

theorem written_renderBlock {span : Span} (h : WrittenStatements false ss) :
    WrittenBlock (Block.bare ⟨ss, span⟩) (Block.renderWords ⟨ss, span⟩) := by
  intro xs hxs
  obtain ⟨x, ys, z, rfl, hx, hys, hz⟩ := split_between hxs
  obtain ⟨ss', hss', hmap, -⟩ := h ys hys
  refine ⟨_, .block hx hss' hz, ?_⟩
  unfold Block.normal Block.bare
  rw [Stmt.normalList_eq, hmap, trimGaps_of_full (Stmt.isBlank_bareList ss)]

end Statements

/-! ## The words of a tree -/

mutual

theorem Expr.renderWords_written : ∀ e : Expr, e.Spelled → e.toldApart = true →
    WrittenExpr tight tight e.bare e.renderWords
  | .ident name, _, _ => written_ident name
  | .int .., h, _ => written_int h.2
  | .float .., h, _ => written_float h.2
  | .bool value _, _, _ => written_bool value
  | .str value _, _, _ => written_str value
  | .array elements _, h, ht => by
    unfold Expr.renderWords Expr.bare
    rw [Expr.renderWordsList_eq, Expr.bareList_eq]
    exact written_array (Expr.renderWordsList_written elements h ht)
  | .hash entries _, h, ht => by
    unfold Expr.renderWords Expr.bare
    rw [Entry.renderWordsList_eq, Entry.bareList_eq]
    exact written_hash (Entry.renderWordsList_written entries h ht)
  | .unary op operand _, h, ht => by
    have hoperand := Expr.renderWords_written operand h ht
    unfold Expr.renderWords Expr.bare
    exact (written_unary op hoperand (Nat.lt_succ_self 13) (Nat.le_succ 13)).closed tight_pos
  | .binary left op right _, h, ht => by
    rw [Expr.toldApart, Bool.and_eq_true] at ht
    have hleft := Expr.renderWords_written left h.1 ht.1
    have hright := Expr.renderWords_written right h.2 ht.2
    have hrank : op.precedence.rank < tight := Nat.lt_of_le_of_lt op.rank_le_twelve (by decide)
    have hrank' : op.rightPrecedence.rank < tight :=
      Nat.lt_of_le_of_lt op.rank_rightPrecedence_bounds.1 hrank
    have hbinary := written_binary op hleft hright ⟨Nat.le_of_lt hrank, Nat.le_of_lt hrank⟩
      ⟨hrank', Nat.le_of_lt hrank'⟩
    unfold Expr.renderWords Expr.bare
    exact hbinary.closed (op.rank_precedence_bounds).1
  | .cond condition consequence alternative _, h, ht => by
    rw [Expr.toldApart, Bool.and_eq_true, Bool.and_eq_true] at ht
    have hc := (Expr.renderWords_written condition h.1 ht.1.1).item tight_pos
    have hb := Block.renderWords_written consequence h.2.1 ht.1.2
    unfold Expr.renderWords Expr.bare
    cases alternative with
    | none =>
      unfold Block.renderWordsElse
      rw [List.append_nil]
      exact written_cond hc hb
    | some body => exact written_condElse hc hb (Block.renderWords_written body h.2.2 ht.2)
  | .loop condition body _, h, ht => by
    rw [Expr.toldApart, Bool.and_eq_true] at ht
    unfold Expr.renderWords Expr.bare
    exact written_loop ((Expr.renderWords_written condition h.1 ht.1).item tight_pos)
      (Block.renderWords_written body h.2 ht.2)
  | .func _ body _, h, ht => by
    unfold Expr.renderWords Expr.bare
    exact written_func (Block.renderWords_written body h.2 ht)
  | .call callee arguments _, h, ht => by
    rw [Expr.toldApart, Bool.and_eq_true] at ht
    unfold Expr.renderWords Expr.bare
    rw [Expr.renderWordsList_eq, Expr.bareList_eq]
    exact written_call (Expr.renderWords_written callee h.1 ht.1)
      (Expr.renderWordsList_written arguments h.2 ht.2)
  | .index target position _, h, ht => by
    rw [Expr.toldApart, Bool.and_eq_true] at ht
    have hposition := (Expr.renderWords_written position h.2 ht.2).item tight_pos
    unfold Expr.renderWords Expr.bare
    exact (written_index (Expr.renderWords_written target h.1 ht.1) hposition).closed tight_pos

theorem Expr.renderWordsList_written : ∀ es : List Expr, Expr.SpelledList es →
    Expr.toldApartList es = true → ∀ e ∈ es, WrittenItem e.bare e.renderWords
  | [], _, _ => fun _ he => absurd he List.not_mem_nil
  | e :: es, h, ht => by
    rw [Expr.toldApartList, Bool.and_eq_true] at ht
    exact List.forall_mem_cons.mpr ⟨(Expr.renderWords_written e h.1 ht.1).item tight_pos,
      Expr.renderWordsList_written es h.2 ht.2⟩

theorem Entry.renderWords_written : ∀ p : Entry, p.Spelled → p.toldApart = true →
    WrittenEntry p.bare p.renderWords
  | ⟨key, value⟩, h, ht => by
    rw [Entry.toldApart, Bool.and_eq_true] at ht
    unfold Entry.renderWords Entry.bare
    exact written_entry ((Expr.renderWords_written key h.1 ht.1).item tight_pos)
      ((Expr.renderWords_written value h.2 ht.2).item tight_pos)

theorem Entry.renderWordsList_written : ∀ ps : List Entry, Entry.SpelledList ps →
    Entry.toldApartList ps = true → ∀ p ∈ ps, WrittenEntry p.bare p.renderWords
  | [], _, _ => fun _ hp => absurd hp List.not_mem_nil
  | p :: ps, h, ht => by
    rw [Entry.toldApartList, Bool.and_eq_true] at ht
    exact List.forall_mem_cons.mpr
      ⟨Entry.renderWords_written p h.1 ht.1, Entry.renderWordsList_written ps h.2 ht.2⟩

theorem Stmt.renderWords_written : ∀ s : Stmt, s.Spelled → s.toldApart = true →
    ∀ afterExpr, s.standsOut afterExpr = true → s.isBlank = false →
      WrittenFirst s.bare s.renderWords
  | .bind name value _, h, ht, _, _, _ => by
    have hvalue := (Expr.renderWords_written value h.2 ht).item tight_pos
    unfold Stmt.renderWords Stmt.bare
    exact (written_bind hvalue).semicolon
  | .ret value _, h, ht, _, _, _ => by
    have hvalue := (Expr.renderWords_written value h ht).item tight_pos
    unfold Stmt.renderWords Stmt.bare
    exact (written_ret hvalue).semicolon
  | .expr value, h, ht, _, hout, _ => by
    have hvalue := (Expr.renderWords_written value h ht).item tight_pos
    obtain ⟨t, ts, hwords, hbrace, -⟩ := value.renderWords_cons
    have ht : t ≠ .leftBrace := by
      rw [Stmt.standsOut, Bool.and_eq_true, Bool.not_eq_true'] at hout
      exact hbrace hout.1
    unfold Stmt.renderWords Stmt.bare
    refine writtenFirst_expr (written_exprStmt hvalue ?_)
    rw [hwords, List.head?_cons]
    simpa using ht
  | .block body, h, ht, _, _, _ => by
    unfold Stmt.renderWords Stmt.bare
    exact writtenFirst_block (Block.renderWords_written body h ht)
  | .blank _, _, _, _, _, hblank => nomatch hblank

theorem Stmt.renderWordsList_written : ∀ (ss : List Stmt) (afterExpr : Bool),
    Stmt.SpelledList ss → Stmt.toldApartList afterExpr ss = true → WrittenStatements afterExpr ss
  | [], afterExpr, _, _ => writtenStatements_nil afterExpr
  | s :: ss, afterExpr, h, ht => by
    unfold Stmt.toldApartList at ht
    by_cases hs : s.isBlank = true
    · rw [if_pos hs] at ht
      exact (Stmt.renderWordsList_written ss afterExpr h.2 ht).blank hs
    · rw [if_neg hs, Bool.and_eq_true, Bool.and_eq_true] at ht
      obtain ⟨⟨hinside, hout⟩, hrest⟩ := ht
      have hs : s.isBlank = false := by simpa using hs
      have hfirst := Stmt.renderWords_written s h.1 hinside afterExpr hout hs
      exact (Stmt.renderWordsList_written ss s.isExpr h.2 hrest).cons hs hfirst hout

theorem Block.renderWords_written : ∀ b : Block, b.Spelled → b.toldApart = true →
    WrittenBlock b.bare b.renderWords
  | ⟨statements, _⟩, h, ht =>
    written_renderBlock (Stmt.renderWordsList_written statements false h ht)

end

/-! ## Reading the text -/

/-- Where the statements of a program are told apart and its names and numbers are spelled as the
    lexer reads them, its text on one line has no fault, and is read as the program without its places
    and its blank lines. -/
theorem Program.parse_render {p : Program} (h : Stmt.SpelledList p.statements)
    (ht : p.toldApart = true) :
    (parse p.render).errors = [] ∧ (parse p.render).program.normal = p.bare := by
  obtain ⟨xs, zs, hxs, hwords, hzs⟩ := split_append (Program.tokens_render h)
  obtain ⟨z, rfl, hz⟩ := split_singleton hzs
  obtain ⟨ss, hwritten, hmap, -⟩ :=
    Stmt.renderWordsList_written p.statements false h ht xs hwords
  obtain ⟨hstatements, herrors⟩ := hwritten.parseLexemes_eq hz
  unfold parse Program.normal Program.bare
  rw [hxs, hstatements, Stmt.normalList_eq, hmap,
    trimGaps_of_full (Stmt.isBlank_bareList p.statements)]
  exact ⟨herrors, rfl⟩

/-- What a function value is shown by is read as the function, if the statements of its body are told
    apart. -/
theorem parse_renderFunction {parameters : List Ident} {body : Block}
    (hnames : ∀ p ∈ parameters, (Token.ident p.name).Spelled) (hbody : body.Spelled)
    (ht : body.toldApart = true) :
    let text := renderFunction parameters body
    (parse text).errors = [] ∧ (parse text).program.normal =
      ⟨[.expr (.func (parameters.map Ident.normal) body.bare .none)], .none⟩ := by
  let p : Program := ⟨[.expr (.func parameters body .none)], .none⟩
  have hspelled : Stmt.SpelledList p.statements := ⟨⟨hnames, hbody⟩, trivial⟩
  have hp : p.toldApart = true := by
    show Stmt.toldApartList false [.expr (.func parameters body .none)] = true
    simp [Stmt.toldApartList, Stmt.toldApart, Expr.toldApart, Stmt.standsOut, Expr.opensBrace,
      Stmt.isBlank, ht]
  have htext : p.render = renderFunction parameters body := String.intercalate_singleton
  have hread := Program.parse_render hspelled hp
  rw [htext] at hread
  exact hread

/-- What was read from a source is read again from its text on one line, without its places and its
    blank lines, where its statements are told apart. -/
theorem parse_render_parse (source : String) (ht : (parse source).program.toldApart = true) :
    let text := (parse source).program.render
    (parse text).errors = [] ∧ (parse text).program.normal = (parse source).program.bare :=
  Program.parse_render (parse_spelled source) ht

/-- Behind a binding, a block or the start of a body, every expression but a hash is told apart. -/
theorem parse_render_parse_body :
    let source := "let f = fn(a) \x7b let b = -a; [b][0] \x7d\n\n\n\x7b \x7d (f(1) ** 2); if x \x7b y \x7d"
    let text := (parse source).program.render
    (parse source).program.toldApart = true ∧ (parse text).errors = [] ∧
      (parse text).program.normal = (parse source).program.bare := by
  intro source text
  have ht : (parse source).program.toldApart = true := by decide +kernel
  exact ⟨ht, parse_render_parse source ht⟩

/-- The two statements of `f; -1` are not told apart: their text is a call of `f`. -/
theorem parse_render_parse_call :
    let p := (parse "f; -1").program
    (parse "f; -1").errors = [] ∧ p.render = "f\n(-1)" ∧ (parse p.render).errors = [] ∧
      (parse p.render).program.normal ≠ p.bare := by
  intro p
  have hlength : (parse p.render).program.normal.statements.length = 1 := by decide +kernel
  have hlength' : p.bare.statements.length = 2 := by decide +kernel
  refine ⟨by decide +kernel, by decide +kernel, by decide +kernel, fun heq => ?_⟩
  rw [heq, hlength'] at hlength
  cases hlength

end Scriptlet
