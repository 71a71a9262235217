import Scriptlet.Proofs.Grammar.Takes

/-!
# `Proofs.Grammar.Written` — the grammar as a relation

The rules of the grammar say how lexemes are read. This module says which lexemes a tree is written
with, in the usual way: one clause for each construct. An expression is written with two numbers. Its
head says in front of which levels it is read whole; its tail says which operators after it it leaves
alone. So there is no ambiguity between the clauses, and reading what is written gives the tree back,
spans included.

## Contents
- `Lexeme.leaf?`: names and literals.
- `Form` and `Written`: the clauses.
- `Form.Read`: what reading does with each form, and `Written.read`: it does so with everything
  written.
-/

namespace Scriptlet

open Grammar Rule

/-! ## The clauses -/

/-- The expression that a single lexeme is: a name, or a literal with a value. -/
def Lexeme.leaf? (x : Lexeme) : Option Expr :=
  match x.token with
  | .ident text => some (.ident ⟨text, x.span⟩)
  | .int text => (Numeral.readInteger text).map fun value => .int value text x.span
  | .float text => (Numeral.readFloat text).map fun value => .float value text x.span
  | .kwTrue => some (.bool true x.span)
  | .kwFalse => some (.bool false x.span)
  | .str value => some (.str value x.span)
  | _ => none

/-- A name among parameters. -/
def Lexeme.name? (x : Lexeme) : Option Ident :=
  match x.token with
  | .ident text => some ⟨text, x.span⟩
  | _ => none

/-- What can be written. An expression has a head and a tail; an item is an expression whatever these
    are, and a whole one may stand behind blank lines. A simple statement is one that a semicolon may
    end. -/
inductive Form where
  | expr (head tail : Nat) (e : Expr)
  | item (e : Expr)
  | whole (e : Expr)
  | entry (p : Entry)
  | block (b : Block)
  | simple (s : Stmt)
  | statements (ss : List Stmt)

/-- How tightly closed expressions hold together: as tightly as calls. -/
abbrev tight : Nat := Precedence.call.rank

/-- Tokens that go on with no simple statement. -/
def Stops (t : Token) : Prop :=
  t.precedence = .lowest ∧ t ≠ .kwElse ∧ t ≠ .semicolon

/-- The lexemes that a form is written with. -/
inductive Written : Form → List Lexeme → Prop
  /- Expressions. -/
  | leaf {x : Lexeme} {e : Expr} (h : x.leaf? = some e) : Written (.expr tight tight e) [x]
  | group {x z : Lexeme} {e : Expr} {xs bs : List Lexeme} (hx : x.token = .leftParen)
      (he : Written (.whole e) xs) (hb : Blanks bs) (hz : z.token = .rightParen) :
      Written (.expr tight tight e) (x :: (xs ++ (bs ++ [z])))
  | array {x z : Lexeme} {items : List (Expr × List Lexeme)} {ys : List Lexeme}
      (hx : x.token = .leftBracket) (hitems : ∀ i ∈ items, Written (.item i.1) i.2)
      (hys : Separated (items.map Prod.snd) ys) (hz : z.token = .rightBracket) :
      Written (.expr tight tight (.array (items.map Prod.fst) ⟨x.start, z.stop⟩))
        (x :: (ys ++ [z]))
  | hash {x z : Lexeme} {items : List (Entry × List Lexeme)} {ys : List Lexeme}
      (hx : x.token = .leftBrace) (hitems : ∀ i ∈ items, Written (.entry i.1) i.2)
      (hys : Separated (items.map Prod.snd) ys) (hz : z.token = .rightBrace) :
      Written (.expr tight tight (.hash (items.map Prod.fst) ⟨x.start, z.stop⟩)) (x :: (ys ++ [z]))
  | unary {x : Lexeme} {op : UnaryOp} {head tail : Nat} {e : Expr} {bs xs : List Lexeme}
      (hx : x.token.unaryOp? = some op) (hb : Blanks bs) (he : Written (.expr head tail e) xs)
      (hhead : Precedence.unary.rank < head) (htail : Precedence.unary.rank ≤ tail) :
      Written (.expr tight Precedence.unary.rank (.unary op e ⟨x.start, e.span.stop⟩))
        (x :: (bs ++ xs))
  | binary {x : Lexeme} {op : BinaryOp} {head tail head' tail' k : Nat} {l r : Expr}
      {xs bs ys : List Lexeme} (hl : Written (.expr head tail l) xs)
      (hhead : op.precedence.rank ≤ head) (htail : op.precedence.rank ≤ tail)
      (hx : x.token = .operator op) (hb : Blanks bs) (hr : Written (.expr head' tail' r) ys)
      (hhead' : op.rightPrecedence.rank < head') (hk : k ≤ op.rightPrecedence.rank)
      (hk' : k ≤ tail') :
      Written (.expr op.precedence.rank k (.binary l op r (l.span.merge r.span)))
        (xs ++ (x :: (bs ++ ys)))
  | cond {x : Lexeme} {c : Expr} {b : Block} {xs ys : List Lexeme} (hx : x.token = .kwIf)
      (hc : Written (.whole c) xs) (hb : Written (.block b) ys) :
      Written (.expr tight tight (.cond c b none ⟨x.start, b.span.stop⟩)) (x :: (xs ++ ys))
  | condElse {x y : Lexeme} {c : Expr} {b b' : Block} {xs ys zs : List Lexeme}
      (hx : x.token = .kwIf) (hc : Written (.whole c) xs) (hb : Written (.block b) ys)
      (hy : y.token = .kwElse) (hb' : Written (.block b') zs) :
      Written (.expr tight tight (.cond c b (some b') ⟨x.start, b'.span.stop⟩))
        (x :: (xs ++ (ys ++ y :: zs)))
  | loop {x : Lexeme} {c : Expr} {b : Block} {xs ys : List Lexeme} (hx : x.token = .kwWhile)
      (hc : Written (.whole c) xs) (hb : Written (.block b) ys) :
      Written (.expr tight tight (.loop c b ⟨x.start, b.span.stop⟩)) (x :: (xs ++ ys))
  | func {x y z : Lexeme} {names : List (Ident × List Lexeme)} {b : Block} {ys zs : List Lexeme}
      (hx : x.token = .kwFn) (hy : y.token = .leftParen)
      (hnames : ∀ i ∈ names, ∃ w : Lexeme, i.2 = [w] ∧ w.name? = some i.1)
      (hys : Separated (names.map Prod.snd) ys) (hz : z.token = .rightParen)
      (hb : Written (.block b) zs) :
      Written (.expr tight tight (.func (names.map Prod.fst) b ⟨x.start, b.span.stop⟩))
        (x :: y :: (ys ++ [z] ++ zs))
  | call {x z : Lexeme} {f : Expr} {items : List (Expr × List Lexeme)} {xs ys : List Lexeme}
      (hf : Written (.expr tight tight f) xs) (hx : x.token = .leftParen)
      (hitems : ∀ i ∈ items, Written (.item i.1) i.2) (hys : Separated (items.map Prod.snd) ys)
      (hz : z.token = .rightParen) :
      Written (.expr tight tight (.call f (items.map Prod.fst) ⟨f.span.start, z.stop⟩))
        (xs ++ x :: (ys ++ [z]))
  | index {x z : Lexeme} {e i : Expr} {xs ys bs : List Lexeme}
      (he : Written (.expr tight tight e) xs) (hx : x.token = .leftBracket)
      (hi : Written (.whole i) ys) (hb : Blanks bs) (hz : z.token = .rightBracket) :
      Written (.expr tight tight (.index e i ⟨e.span.start, z.stop⟩))
        (xs ++ x :: (ys ++ (bs ++ [z])))
  | item {head tail : Nat} {e : Expr} {xs : List Lexeme} (h : Written (.expr head tail e) xs)
      (hhead : 0 < head) : Written (.item e) xs
  | whole {e : Expr} {bs xs : List Lexeme} (hb : Blanks bs) (h : Written (.item e) xs) :
      Written (.whole e) (bs ++ xs)
  | entry {key value : Expr} {c : Lexeme} {xs bs ys : List Lexeme} (hk : Written (.item key) xs)
      (hb : Blanks bs) (hc : c.token = .colon) (hv : Written (.whole value) ys) :
      Written (.entry ⟨key, value⟩) (xs ++ (bs ++ c :: ys))
  /- Statements. -/
  | block {x z : Lexeme} {ss : List Stmt} {xs : List Lexeme} (hx : x.token = .leftBrace)
      (h : Written (.statements ss) xs) (hz : z.token = .rightBrace) :
      Written (.block ⟨ss, ⟨x.start, z.stop⟩⟩) (x :: (xs ++ [z]))
  | bind {x n y : Lexeme} {name : Ident} {e : Expr} {xs : List Lexeme} (hx : x.token = .kwLet)
      (hn : n.name? = some name) (hy : y.token = .operator .assign) (he : Written (.whole e) xs) :
      Written (.simple (.bind name e ⟨x.start, e.span.stop⟩)) (x :: n :: y :: xs)
  | ret {x : Lexeme} {e : Expr} {xs : List Lexeme} (hx : x.token = .kwReturn)
      (he : Written (.whole e) xs) :
      Written (.simple (.ret e ⟨x.start, e.span.stop⟩)) (x :: xs)
  | exprStmt {e : Expr} {x : Lexeme} {xs : List Lexeme} (hx : x.token ≠ .leftBrace)
      (he : Written (.item e) (x :: xs)) : Written (.simple (.expr e)) (x :: xs)
  | nil : Written (.statements []) []
  | semicolon {x : Lexeme} {ss : List Stmt} {xs : List Lexeme} (hx : x.token = .semicolon)
      (h : Written (.statements ss) xs) : Written (.statements ss) (x :: xs)
  | blank {x : Lexeme} {ss : List Stmt} {xs : List Lexeme} (hx : x.token = .blankLine)
      (h : Written (.statements ss) xs) : Written (.statements (.blank x.span :: ss)) (x :: xs)
  | blockStmt {b : Block} {ss : List Stmt} {xs ys : List Lexeme} (hb : Written (.block b) xs)
      (h : Written (.statements ss) ys) : Written (.statements (.block b :: ss)) (xs ++ ys)
  | ended {x : Lexeme} {s : Stmt} {ss : List Stmt} {xs ys : List Lexeme}
      (hs : Written (.simple s) xs) (hx : x.token = .semicolon) (h : Written (.statements ss) ys) :
      Written (.statements (s :: ss)) (xs ++ x :: ys)
  | unended {s : Stmt} {ss : List Stmt} {xs ys : List Lexeme} (hs : Written (.simple s) xs)
      (hy : ∀ y ∈ ys.head?, Stops y.token) (h : Written (.statements ss) ys) :
      Written (.statements (s :: ss)) (xs ++ ys)

/-! ### How an expression starts -/

/-- Tokens with which an expression starts. -/
def Token.startsExpr : Token → Bool
  | .ident _ | .int _ | .float _ | .str _ | .kwTrue | .kwFalse | .bang | .operator .sub
  | .leftBracket | .leftBrace | .leftParen | .kwIf | .kwWhile | .kwFn => true
  | _ => false

theorem Lexeme.startsExpr_of_leaf? {x : Lexeme} {e : Expr} (h : x.leaf? = some e) :
    x.token.startsExpr = true := by
  unfold leaf? at h
  cases hx : x.token <;> rw [hx] at h <;> first | rfl | exact absurd h (by simp)

theorem Token.unaryOp?_eq_some {t : Token} {op : UnaryOp} (h : t.unaryOp? = some op) :
    t = .operator .sub ∨ t = .bang := by
  unfold unaryOp? at h
  split at h
  · exact Or.inl rfl
  · exact Or.inr rfl
  · cases h

theorem Token.startsExpr_of_unaryOp? {t : Token} {op : UnaryOp} (h : t.unaryOp? = some op) :
    t.startsExpr = true := by
  rcases unaryOp?_eq_some h with rfl | rfl
  · rfl
  · rfl

/-- The form is written with at least one lexeme, one with which an expression starts. -/
def Form.Starts : Form → List Lexeme → Prop
  | .expr _ _ _, xs | .item _, xs | .entry _, xs =>
    ∃ x ys, xs = x :: ys ∧ x.token.startsExpr = true
  | _, _ => True

theorem Written.starts {f : Form} {xs : List Lexeme} (h : Written f xs) : f.Starts xs := by
  induction h with
  | leaf h => exact ⟨_, _, rfl, Lexeme.startsExpr_of_leaf? h⟩
  | group hx | array hx | hash hx | cond hx | condElse hx | loop hx | func hx =>
    exact ⟨_, _, rfl, by rw [hx]; rfl⟩
  | unary hx => exact ⟨_, _, rfl, Token.startsExpr_of_unaryOp? hx⟩
  | binary _ _ _ _ _ _ _ _ _ ih _ =>
    obtain ⟨x, ys, rfl, hx⟩ := ih
    exact ⟨x, _, rfl, hx⟩
  | call _ _ _ _ _ ih _ =>
    obtain ⟨x, ys, rfl, hx⟩ := ih
    exact ⟨x, _, rfl, hx⟩
  | index _ _ _ _ _ ih _ =>
    obtain ⟨x, ys, rfl, hx⟩ := ih
    exact ⟨x, _, rfl, hx⟩
  | item _ _ ih => exact ih
  | entry _ _ _ _ ih _ =>
    obtain ⟨x, ys, rfl, hx⟩ := ih
    exact ⟨x, _, rfl, hx⟩
  | whole | block | bind | ret | exprStmt | nil | semicolon | blank | blockStmt | ended | unended =>
    trivial

/-! ## Reading what is written -/

/-- Tokens that leave an expression with tail `k` alone. -/
def Ends (k : Nat) (t : Token) : Prop := t.precedence.rank ≤ k ∧ t ≠ .kwElse

theorem Ends.mono {k m : Nat} {t : Token} (h : Ends k t) (hkm : k ≤ m) : Ends m t :=
  ⟨Nat.le_trans h.1 hkm, h.2⟩

theorem ends_blankLine (k : Nat) : Ends k .blankLine := ⟨Nat.zero_le k, by simp⟩

/-- What reading does with a form: it takes the lexemes and gives the tree. An expression is followed
    by the operators that its tail does not leave alone, a simple statement by a semicolon that goes
    with it. -/
def Form.Read : Form → List Lexeme → Prop
  | .expr head tail e, xs => ∀ (level : Precedence) (s t : State), level.rank < head →
    s.Through xs t → Ends tail t.current.token → readExpression level s = readOperators level e t
  | .item e, xs | .whole e, xs => ∀ n, (readExpression .lowest).Takes n e xs (Ends 0)
  | .entry p, xs => ∀ n, (Grammar.entry readExpression).Takes n p xs (Ends 0)
  | .block b, xs => ∀ n, readBlock.Takes n b xs anyToken
  | .simple st, xs => ∀ s t : State, s.Through xs t → Ends 0 t.current.token →
    endsStatements true s.current.token = false ∧ s.current.token ≠ .semicolon ∧
      statement readExpression readBlock s =
        .ok st (if t.currentIs .semicolon then t.step else t)
  | .statements ss, xs => ∀ n inBlock,
    (readStatements inBlock).Takes n ss xs fun t => endsStatements inBlock t = true

/-! ### Expressions -/

theorem notBlank_of_startsExpr {t : Token} (h : t.startsExpr = true) : NotBlank t := by
  rintro rfl
  exact absurd h (by simp [Token.startsExpr])

section Operands

variable {b n : Nat} {F : Token → Prop} {x z : Lexeme} {xs ys zs bs : List Lexeme}

/-- The rule of an operand that starts with `x`. -/
abbrev operandRule (b : Nat) : Rule Expr := operand readExpression readBlock b

/-- Blank lines before an expression do not matter. -/
theorem readExpression_blanks {s t : State} (hst : s.Through bs t) (hb : Blanks bs)
    (ht : NotBlank t.current.token) (level : Precedence) :
    readExpression level s = readExpression level t := by
  have hlen := hst.length_le
  have hskip := hst.skipBlankLines hb ht
  have hskip' := (State.through_nil t).skipBlankLines blanks_nil ht
  rw [readExpression_apply level (Nat.le_refl _),
    readExpression_apply level (b := s.rest.length) (by omega), skipBlankLines_bind,
    skipBlankLines_bind, hskip, hskip']

/-- An operand is followed by its operators. -/
theorem readExpression_operand {e : Expr} {s t : State} (level : Precedence)
    (hx : x.token.startsExpr = true) (h : ∀ b, (operandRule b).Takes b e (x :: xs) F)
    (hst : s.Through (x :: xs) t) (ht : F t.current.token) :
    readExpression level s = readOperators level e t := by
  have hskip := (State.through_nil s).skipBlankLines blanks_nil
    (by rw [hst.current_eq]; exact notBlank_of_startsExpr hx)
  rw [readExpression_apply level (Nat.le_refl _), skipBlankLines_bind, hskip,
    bind_ok (h _ s t (Nat.le_refl _) hst ht)]

/-- An expression whose head is above the level, read up to an operator that is not. -/
theorem Form.Read.takes {head tail k : Nat} {e : Expr} (h : Form.Read (.expr head tail e) xs)
    (hxs : (Form.expr head tail e).Starts xs) (hb : Blanks bs) {level : Precedence}
    (hhead : level.rank < head) (hk : k ≤ tail) (hk' : k ≤ level.rank) :
    (readExpression level).Takes n e (bs ++ xs) (Ends k) := by
  intro s u _ hsu hu
  obtain ⟨t, hst, htu⟩ := hsu.split
  obtain ⟨x, ys, rfl, hx⟩ := hxs
  have ht : NotBlank t.current.token := by
    rw [htu.current_eq]
    exact notBlank_of_startsExpr hx
  rw [readExpression_blanks hst hb ht, h level t u hhead htu (hu.mono hk)]
  exact readOperators_stop e (Nat.le_trans hu.1 hk')

theorem name_takes {w : Lexeme} {id : Ident} (h : w.name? = some id) : name.Takes b id [w] F := by
  unfold Lexeme.name? at h
  split at h
  · next text hw =>
    cases h
    refine look_takes ?_
    rw [hw]
    exact take_bind_takes (pure_takes _)
  · cases h

theorem integer_takes {text : String} {value : Int64} (hx : x.token.literal = text)
    (hvalue : Numeral.readInteger text = some value) :
    integer.Takes b (.int value text x.span) [x] F := by
  refine take_bind_takes ?_
  rw [hx, hvalue]
  exact pure_takes _

theorem float_takes {text : String} {value : Float} (hx : x.token.literal = text)
    (hvalue : Numeral.readFloat text = some value) :
    float.Takes b (.float value text x.span) [x] F := by
  refine take_bind_takes ?_
  rw [hx, hvalue]
  exact pure_takes _

theorem boolean_takes : boolean.Takes b (.bool (x.token = .kwTrue) x.span) [x] F :=
  take_bind_takes (pure_takes _)

theorem string_takes : string.Takes b (.str x.token.literal x.span) [x] F :=
  take_bind_takes (pure_takes _)

theorem leaf_takes {e : Expr} (h : x.leaf? = some e) : (operandRule b).Takes b e [x] F := by
  have hbool := boolean_takes (b := b) (F := F) (x := x)
  have hstr := string_takes (b := b) (F := F) (x := x)
  unfold Lexeme.leaf? at h
  refine look_takes ?_
  split at h
  · next text hx =>
    cases h
    rw [hx]
    have hname : x.name? = some ⟨text, x.span⟩ := by
      unfold Lexeme.name?
      rw [hx]
    exact (name_takes hname).bind_pure rfl
  · next text hx =>
    obtain ⟨value, hvalue, rfl⟩ := Option.map_eq_some_iff.mp h
    rw [hx]
    exact integer_takes (by rw [hx]; rfl) hvalue
  · next text hx =>
    obtain ⟨value, hvalue, rfl⟩ := Option.map_eq_some_iff.mp h
    rw [hx]
    exact float_takes (by rw [hx]; rfl) hvalue
  · next hx =>
    cases h
    rw [hx] at hbool ⊢
    exact hbool
  · next hx =>
    cases h
    rw [hx] at hbool ⊢
    exact hbool
  · next value hx =>
    cases h
    rw [hx] at hstr ⊢
    exact hstr
  · cases h

/-- Blank lines and a closing token end an expression. -/
theorem leading_blanks_close (hb : Blanks bs) (hz : Ends 0 z.token) :
    Leading (Ends 0) (bs ++ [z]) F :=
  (hb.leading (ends_blankLine 0) fun _ ht => ht).append (leading_cons hz)

/-- A whole expression up to a closing token, with blank lines before it. -/
theorem closing_takes {e : Expr} {close : Token} {β : Type} {f : Expr → Span → β}
    (h : Form.Read (.whole e) xs) (hb : Blanks bs) (hclose : Ends 0 close ∧ NotBlank close)
    (hz : z.token = close) :
    (do
      let e ← readExpression .lowest
      skipBlankLines
      let closing ← expect close
      pure (f e closing) : Rule β).Takes b (f e z.span) (xs ++ (bs ++ [z])) F := by
  refine (h b).bind ?_ (leading_blanks_close hb (hz ▸ hclose.1))
  refine (skipBlankLines_takes hb).bind ?_ (leading_cons (hz ▸ hclose.2))
  exact (expect_takes (by rw [hz])).bind_pure rfl

theorem ends_rightParen : Ends 0 .rightParen ∧ NotBlank .rightParen :=
  ⟨⟨Nat.le_refl 0, by simp⟩, by simp [NotBlank]⟩

theorem ends_rightBracket : Ends 0 .rightBracket ∧ NotBlank .rightBracket :=
  ⟨⟨Nat.le_refl 0, by simp⟩, by simp [NotBlank]⟩

theorem group_takes {e : Expr} (hx : x.token = .leftParen) (he : Form.Read (.whole e) xs)
    (hb : Blanks bs) (hz : z.token = .rightParen) :
    (operandRule b).Takes b e (x :: (xs ++ (bs ++ [z]))) F := by
  refine look_takes ?_
  rw [hx]
  refine take_bind_takes ?_
  exact closing_takes (f := fun e _ => e) he hb ends_rightParen hz

/-! ### Expressions with lists in them -/

/-- The tokens that close a list. -/
def Closing (t : Token) : Prop := t = .rightBracket ∨ t = .rightParen ∨ t = .rightBrace

theorem Closing.eq_of_kind {close t : Token} (h : Closing close) (ht : t.kind = close.kind) :
    t = close := by
  rcases h with rfl | rfl | rfl
  · exact Token.eq_of_kind rfl ht
  · exact Token.eq_of_kind rfl ht
  · exact Token.eq_of_kind rfl ht

theorem Closing.ends {close t : Token} (h : Closing close) (ht : AfterItem close t) : Ends 0 t := by
  rcases ht with rfl | rfl | ht
  · exact ⟨Nat.le_refl 0, by simp⟩
  · exact ends_blankLine 0
  · rw [h.eq_of_kind ht]
    rcases h with rfl | rfl | rfl
    · exact ends_rightBracket.1
    · exact ends_rightParen.1
    · exact ⟨Nat.le_refl 0, by simp⟩

/-- No expression starts with a closing token. -/
theorem Closing.not_starts {close t : Token} (h : Closing close) (ht : t.startsExpr = true) :
    t.kind ≠ close.kind := by
  intro hk
  rw [h.eq_of_kind hk] at ht
  rcases h with rfl | rfl | rfl <;> simp [Token.startsExpr] at ht

theorem Closing.list {close : Token} (h : Closing close) :
    NotBlank close.kind ∧ close.kind ≠ .comma := by
  rcases h with rfl | rfl | rfl <;> simp [NotBlank, Token.kind]

/-- Items that start as expressions do and end where expressions end. -/
theorem items_takes {α : Type} {item : Rule α} {close : Token} (hclose : Closing close)
    {items : List (α × List Lexeme)}
    (hitems : ∀ i ∈ items, (∃ x ys, i.2 = x :: ys ∧ x.token.startsExpr = true) ∧
      ∀ n, item.Takes n i.1 i.2 (Ends 0))
    (hys : Separated (items.map Prod.snd) ys) (hz : z.token = close) :
    (listOf close item b).Takes b (items.map Prod.fst, z.stop) (ys ++ [z]) F := by
  refine listOf_takes hclose.list hys (fun i hi => ?_) (by rw [hz])
  obtain ⟨⟨x, xs, hxs, hx⟩, htakes⟩ := hitems i hi
  refine ⟨⟨x, xs, hxs, notBlank_of_startsExpr hx, hclose.not_starts hx⟩, ?_⟩
  exact (htakes b).mono fun t ht => hclose.ends ht

theorem array_takes {items : List (Expr × List Lexeme)} (hx : x.token = .leftBracket)
    (hitems : ∀ i ∈ items, (Form.item i.1).Starts i.2 ∧ Form.Read (.item i.1) i.2)
    (hys : Separated (items.map Prod.snd) ys) (hz : z.token = .rightBracket) :
    (operandRule b).Takes b (.array (items.map Prod.fst) ⟨x.start, z.stop⟩) (x :: (ys ++ [z])) F := by
  refine look_takes ?_
  rw [hx]
  refine expect_bind_takes (by rw [hx]) ?_
  have hlist := items_takes (F := F) (b := b) (Or.inl rfl) hitems hys hz
  exact hlist.bind_pure rfl

theorem hash_takes {items : List (Entry × List Lexeme)} (hx : x.token = .leftBrace)
    (hitems : ∀ i ∈ items, (Form.entry i.1).Starts i.2 ∧ Form.Read (.entry i.1) i.2)
    (hys : Separated (items.map Prod.snd) ys) (hz : z.token = .rightBrace) :
    (operandRule b).Takes b (.hash (items.map Prod.fst) ⟨x.start, z.stop⟩) (x :: (ys ++ [z])) F := by
  refine look_takes ?_
  rw [hx]
  refine expect_bind_takes (by rw [hx]) ?_
  have hlist := items_takes (F := F) (b := b) (Or.inr (Or.inr rfl)) hitems hys hz
  exact hlist.bind_pure rfl

theorem entry_takes {key value : Expr} {c : Lexeme} (hk : Form.Read (.item key) xs) (hb : Blanks bs)
    (hc : c.token = .colon) (hv : Form.Read (.whole value) ys) :
    (entry readExpression).Takes n ⟨key, value⟩ (xs ++ (bs ++ c :: ys)) (Ends 0) := by
  have hends : Ends 0 c.token := by
    rw [hc]
    exact ⟨Nat.le_refl 0, by simp⟩
  refine (hk n).bind ?_ ((hb.leading (ends_blankLine 0) fun _ ht => ht).append (leading_cons hends))
  refine (skipBlankLines_takes hb).bind ?_ (leading_cons (by rw [hc]; simp [NotBlank]))
  refine expect_bind_takes (by rw [hc]) ?_
  exact (hv n).bind_pure rfl

/-! ### Operations, conditions, loops, functions -/

theorem unary_takes {op : UnaryOp} {head tail : Nat} {e : Expr} (hx : x.token.unaryOp? = some op)
    (hb : Blanks bs) (he : Form.Read (.expr head tail e) xs)
    (hxs : (Form.expr head tail e).Starts xs) (hhead : Precedence.unary.rank < head)
    (htail : Precedence.unary.rank ≤ tail) :
    (operandRule b).Takes b (.unary op e ⟨x.start, e.span.stop⟩) (x :: (bs ++ xs))
      (Ends Precedence.unary.rank) := by
  have hoperand : (readExpression .unary).Takes b e (bs ++ xs) (Ends Precedence.unary.rank) :=
    he.takes hxs hb hhead htail (Nat.le_refl _)
  have hunary : (unary readExpression).Takes b (.unary op e ⟨x.start, e.span.stop⟩) (x :: (bs ++ xs))
      (Ends Precedence.unary.rank) := by
    refine take_bind_takes ?_
    rw [hx]
    exact hoperand.bind_pure rfl
  refine look_takes ?_
  rcases Token.unaryOp?_eq_some hx with ht | ht
  · rw [ht]
    exact hunary
  · rw [ht]
    exact hunary

theorem ends_leftBrace : Ends 0 .leftBrace := ⟨Nat.le_refl 0, by simp⟩

/-- A block starts with its brace. -/
def StartsBlock (xs : List Lexeme) : Prop := ∃ x ys, xs = x :: ys ∧ x.token = .leftBrace

theorem StartsBlock.leading {G : Token → Prop} (h : StartsBlock xs) : Leading (Ends 0) xs G := by
  obtain ⟨x, ys, rfl, hx⟩ := h
  refine leading_cons ?_
  rw [hx]
  exact ends_leftBrace

theorem cond_takes {c : Expr} {body : Block} (hx : x.token = .kwIf) (hc : Form.Read (.whole c) xs)
    (hb : Form.Read (.block body) ys) (hys : StartsBlock ys) :
    (operandRule b).Takes b (.cond c body none ⟨x.start, body.span.stop⟩) (x :: (xs ++ ys))
      fun t => t ≠ .kwElse := by
  refine look_takes ?_
  rw [hx]
  refine expect_bind_takes (by rw [hx]) ((hc b).bind ?_ hys.leading)
  rw [← List.append_nil ys]
  refine (hb b).bind ?_ leading_any
  intro s t _ hst ht
  rw [hst.eq_of_nil] at ht ⊢
  rw [look_bind, if_neg ht]
  rfl

theorem condElse_takes {c : Expr} {body other : Block} {y : Lexeme} (hx : x.token = .kwIf)
    (hc : Form.Read (.whole c) xs) (hb : Form.Read (.block body) ys) (hys : StartsBlock ys)
    (hy : y.token = .kwElse) (hb' : Form.Read (.block other) zs) :
    (operandRule b).Takes b (.cond c body (some other) ⟨x.start, other.span.stop⟩)
      (x :: (xs ++ (ys ++ y :: zs))) F := by
  have hstart : Leading (Ends 0) (ys ++ y :: zs) F := by
    obtain ⟨w, ws, rfl, hw⟩ := hys
    refine leading_cons ?_
    rw [hw]
    exact ends_leftBrace
  refine look_takes ?_
  rw [hx]
  refine expect_bind_takes (by rw [hx]) ((hc b).bind ((hb b).bind (look_takes ?_) leading_any) hstart)
  rw [if_pos hy]
  refine take_bind_takes ?_
  exact ((hb' b).mono fun _ _ => trivial).bind_pure rfl

theorem loop_takes {c : Expr} {body : Block} (hx : x.token = .kwWhile)
    (hc : Form.Read (.whole c) xs) (hb : Form.Read (.block body) ys) (hys : StartsBlock ys) :
    (operandRule b).Takes b (.loop c body ⟨x.start, body.span.stop⟩) (x :: (xs ++ ys)) F := by
  refine look_takes ?_
  rw [hx]
  refine expect_bind_takes (by rw [hx]) ((hc b).bind ?_ hys.leading)
  exact ((hb b).mono fun _ _ => trivial).bind_pure rfl

theorem func_takes {y : Lexeme} {names : List (Ident × List Lexeme)} {body : Block}
    (hx : x.token = .kwFn) (hy : y.token = .leftParen)
    (hnames : ∀ i ∈ names, ∃ w : Lexeme, i.2 = [w] ∧ w.name? = some i.1)
    (hys : Separated (names.map Prod.snd) ys) (hz : z.token = .rightParen)
    (hb : Form.Read (.block body) zs) :
    (operandRule b).Takes b (.func (names.map Prod.fst) body ⟨x.start, body.span.stop⟩)
      (x :: y :: (ys ++ [z] ++ zs)) F := by
  have hlist : (listOf .rightParen name b).Takes b (names.map Prod.fst, z.stop) (ys ++ [z])
      anyToken := by
    refine items_takes (Or.inr (Or.inl rfl)) (fun i hi => ?_) hys hz
    obtain ⟨w, hw, hname⟩ := hnames i hi
    rw [hw]
    refine ⟨⟨w, [], rfl, ?_⟩, fun n => name_takes hname⟩
    unfold Lexeme.name? at hname
    split at hname
    · next text htoken => rw [htoken]; rfl
    · cases hname
  refine look_takes ?_
  rw [hx]
  refine expect_bind_takes (by rw [hx]) (expect_bind_takes (by rw [hy]) ?_)
  refine hlist.bind ?_ leading_any
  exact ((hb b).mono fun _ _ => trivial).bind_pure rfl

/-! ### What follows an expression -/

theorem call_takes {f : Expr} {items : List (Expr × List Lexeme)} (hx : x.token = .leftParen)
    (hitems : ∀ i ∈ items, (Form.item i.1).Starts i.2 ∧ Form.Read (.item i.1) i.2)
    (hys : Separated (items.map Prod.snd) ys) (hz : z.token = .rightParen) :
    (continuation readExpression b f).Takes b
      (.call f (items.map Prod.fst) ⟨f.span.start, z.stop⟩) (x :: (ys ++ [z])) F := by
  refine look_takes ?_
  rw [hx]
  refine expect_bind_takes (by rw [hx]) ?_
  have hlist := items_takes (F := F) (b := b) (Or.inr (Or.inl rfl)) hitems hys hz
  exact hlist.bind_pure rfl

theorem index_takes {e i : Expr} (hx : x.token = .leftBracket) (hi : Form.Read (.whole i) ys)
    (hb : Blanks bs) (hz : z.token = .rightBracket) :
    (continuation readExpression b e).Takes b (.index e i ⟨e.span.start, z.stop⟩)
      (x :: (ys ++ (bs ++ [z]))) F := by
  refine look_takes ?_
  rw [hx]
  refine expect_bind_takes (by rw [hx]) ?_
  exact closing_takes (f := fun i closing => Expr.index e i ⟨e.span.start, closing.stop⟩) hi hb
    ends_rightBracket hz

theorem binary_takes {op : BinaryOp} {l r : Expr} {head tail k : Nat} (hx : x.token = .operator op)
    (hb : Blanks bs) (hr : Form.Read (.expr head tail r) ys)
    (hys : (Form.expr head tail r).Starts ys) (hhead : op.rightPrecedence.rank < head)
    (hk : k ≤ op.rightPrecedence.rank) (hk' : k ≤ tail) :
    (continuation readExpression b l).Takes b (.binary l op r (l.span.merge r.span))
      (x :: (bs ++ ys)) (Ends k) := by
  have hbinary : (binary readExpression l).Takes b (.binary l op r (l.span.merge r.span))
      (x :: (bs ++ ys)) (Ends k) := by
    have hop : x.token.binaryOp? = some op := by
      rw [hx]
      rfl
    refine take_bind_takes ?_
    rw [hop]
    exact (hr.takes hys hb hhead hk' hk).bind_pure rfl
  refine look_takes ?_
  rw [hx]
  exact hbinary

/-- An expression that goes on with an operator above the level. -/
theorem readExpression_continuation {left wider : Expr} {head tail : Nat} {level : Precedence}
    {s t : State} (hleft : Form.Read (.expr head tail left) xs) (hhead : level.rank < head)
    (hx : level.rank < x.token.precedence.rank) (hends : Ends tail x.token)
    (hwider : ∀ b, (continuation readExpression b left).Takes b wider (x :: ys) F)
    (hst : s.Through (xs ++ x :: ys) t) (ht : F t.current.token) :
    readExpression level s = readOperators level wider t := by
  obtain ⟨u, hsu, hut⟩ := hst.split
  have hcur := hut.current_eq
  rw [hleft level s u hhead hsu (by rw [hcur]; exact hends),
    readOperators_apply left (by rw [hcur]; exact hx) (Nat.le_refl _),
    bind_ok (hwider _ u t (Nat.le_refl _) hut ht)]

/-! ### Items and whole expressions -/

theorem item_read {head tail : Nat} {e : Expr} (h : Form.Read (.expr head tail e) xs)
    (hxs : (Form.expr head tail e).Starts xs) (hhead : 0 < head) : Form.Read (.item e) xs := by
  intro n
  rw [← List.nil_append xs]
  exact h.takes hxs blanks_nil hhead (Nat.zero_le _) (Nat.zero_le _)

theorem whole_read {e : Expr} (hb : Blanks bs) (h : Form.Read (.item e) xs)
    (hxs : (Form.item e).Starts xs) : Form.Read (.whole e) (bs ++ xs) := by
  intro n s u hn hsu hu
  obtain ⟨t, hst, htu⟩ := hsu.split
  obtain ⟨x, ys, rfl, hx⟩ := hxs
  have ht : NotBlank t.current.token := by
    rw [htu.current_eq]
    exact notBlank_of_startsExpr hx
  have hlen := hst.length_le
  rw [readExpression_blanks hst hb ht]
  exact h n t u (by omega) htu hu

/-! ### Blocks and statements -/

theorem block_read {ss : List Stmt} (hx : x.token = .leftBrace)
    (h : Form.Read (.statements ss) xs) (hz : z.token = .rightBrace) :
    Form.Read (.block ⟨ss, ⟨x.start, z.stop⟩⟩) (x :: (xs ++ [z])) := by
  intro n s t hn hst ht
  rw [readBlock_apply]
  -- what is left is a claim about the rule that the block is read with
  revert s t
  show Rule.Takes n _ _ _ _
  refine expect_bind_takes (by rw [hx]) ((h n true).bind ?_ (leading_cons (by rw [hz]; rfl)))
  exact (expect_takes (by rw [hz])).bind_pure rfl

/-- The end of a simple statement: the semicolon goes with it. -/
theorem skipOptional_bind {st : Stmt} (t : State) :
    (do
      skipOptional .semicolon
      pure st : Rule Stmt) t = .ok st (if t.currentIs .semicolon then t.step else t) := rfl

theorem bind_read {m y : Lexeme} {id : Ident} {e : Expr} (hx : x.token = .kwLet)
    (hm : m.name? = some id) (hy : y.token = .operator .assign)
    (he : Form.Read (.whole e) xs) :
    Form.Read (.simple (.bind id e ⟨x.start, e.span.stop⟩)) (x :: m :: y :: xs) := by
  intro s t hst ht
  have hcur := hst.current_eq
  refine ⟨by rw [hcur, hx]; rfl, by rw [hcur, hx]; simp, ?_⟩
  have hlet : ∀ b, (expect .kwLet).Takes b x.span [x] anyToken := fun _ => expect_takes (by rw [hx])
  have hname : ∀ b, name.Takes b id [m] anyToken := fun _ => name_takes hm
  have hassign : ∀ b, (expect (.operator .assign)).Takes b y.span [y] anyToken :=
    fun _ => expect_takes (by rw [hy])
  obtain ⟨s₁, h₁, heq₁⟩ := Takes.bind_eq hlet hst leading_any ht
  obtain ⟨s₂, h₂, heq₂⟩ := Takes.bind_eq hname h₁ leading_any ht
  obtain ⟨s₃, h₃, heq₃⟩ := Takes.bind_eq hassign h₂ leading_any ht
  have hvalue := he _ s₃ t (Nat.le_refl _) h₃ ht
  unfold statement
  rw [look_bind, hcur, hx]
  show letStatement readExpression s = _
  unfold letStatement
  rw [heq₁, heq₂, heq₃, bind_ok hvalue]
  exact skipOptional_bind t

theorem ret_read {e : Expr} (hx : x.token = .kwReturn) (he : Form.Read (.whole e) xs) :
    Form.Read (.simple (.ret e ⟨x.start, e.span.stop⟩)) (x :: xs) := by
  intro s t hst ht
  have hcur := hst.current_eq
  refine ⟨by rw [hcur, hx]; rfl, by rw [hcur, hx]; simp, ?_⟩
  have hreturn : ∀ b, (expect .kwReturn).Takes b x.span [x] anyToken :=
    fun _ => expect_takes (by rw [hx])
  obtain ⟨s₁, h₁, heq₁⟩ := Takes.bind_eq hreturn hst leading_any ht
  have hvalue := he _ s₁ t (Nat.le_refl _) h₁ ht
  unfold statement
  rw [look_bind, hcur, hx]
  show returnStatement readExpression s = _
  unfold returnStatement
  rw [heq₁, bind_ok hvalue]
  exact skipOptional_bind t

/-- A token with which an expression starts, other than a brace, makes an expression statement. -/
theorem statement_of_startsExpr {s : State} (hx : s.current.token.startsExpr = true)
    (hbrace : s.current.token ≠ .leftBrace) :
    endsStatements true s.current.token = false ∧ s.current.token ≠ .semicolon ∧
      statement readExpression readBlock s = expressionStatement readExpression s := by
  unfold statement
  rw [look_bind]
  cases hs : s.current.token <;> rw [hs] at hx hbrace <;>
    first
      | (simp [Token.startsExpr] at hx; done)
      | exact absurd rfl hbrace
      | exact ⟨rfl, by simp, rfl⟩

theorem exprStmt_read {e : Expr} (hx : x.token ≠ .leftBrace) (he : Form.Read (.item e) (x :: xs))
    (hxs : (Form.item e).Starts (x :: xs)) : Form.Read (.simple (.expr e)) (x :: xs) := by
  intro s t hst ht
  obtain ⟨y, ys, hy, hstart⟩ := hxs
  cases hy
  rw [← hst.current_eq] at hx hstart
  obtain ⟨hends, hsemi, heq⟩ := statement_of_startsExpr hstart hx
  refine ⟨hends, hsemi, ?_⟩
  rw [heq]
  unfold expressionStatement
  rw [bind_ok (he _ s t (Nat.le_refl _) hst ht)]
  exact skipOptional_bind t

theorem nil_read : Form.Read (.statements []) [] := by
  intro n inBlock s t _ hst ht
  rw [hst.eq_of_nil] at ht ⊢
  exact readStatements_end ht

theorem semicolon_read {ss : List Stmt} (hx : x.token = .semicolon)
    (h : Form.Read (.statements ss) xs) : Form.Read (.statements ss) (x :: xs) := by
  intro n inBlock s t hn hst ht
  have hlen := hst.step.length_le
  have hlen' := hst.length_le
  rw [List.length_cons] at hlen'
  rw [readStatements_semicolon (by rw [hst.current_eq, hx])]
  exact h _ inBlock s.step t (Nat.le_refl _) hst.step ht

/-- A statement and those after it. -/
theorem first_read {st : Stmt} {ss : List Stmt} {inBlock : Bool} {s t u : State}
    (h : Form.Read (.statements ss) ys) (hends : endsStatements true s.current.token = false)
    (hsemi : s.current.token ≠ .semicolon)
    (hst : statement readExpression readBlock s = .ok st t) (htu : t.Through ys u)
    (hu : endsStatements inBlock u.current.token = true) :
    readStatements inBlock s = .ok (st :: ss) u := by
  have hends : endsStatements inBlock s.current.token = false := by
    cases hs : s.current.token <;> rw [hs] at hends <;>
      first
        | rfl
        | simp [endsStatements] at hends
  rw [readStatements_first hends hsemi hst, bind_ok (h _ inBlock t u (Nat.le_refl _) htu hu)]
  rfl

theorem blank_read {ss : List Stmt} (hx : x.token = .blankLine)
    (h : Form.Read (.statements ss) xs) :
    Form.Read (.statements (.blank x.span :: ss)) (x :: xs) := by
  intro n inBlock s t _ hst ht
  have hcur := hst.current_eq
  have hblank : statement readExpression readBlock s = .ok (.blank x.span) s.step := by
    rw [statement_blank (by rw [hcur, hx]), hcur]
  refine first_read h ?_ ?_ hblank hst.step ht
  · rw [hcur, hx]
    rfl
  · rw [hcur, hx]
    simp

theorem blockStmt_read {body : Block} {ss : List Stmt} (hb : Form.Read (.block body) xs)
    (hxs : StartsBlock xs) (h : Form.Read (.statements ss) ys) :
    Form.Read (.statements (.block body :: ss)) (xs ++ ys) := by
  intro n inBlock s u _ hsu hu
  obtain ⟨t, hst, htu⟩ := hsu.split
  obtain ⟨x, xs, rfl, hx⟩ := hxs
  have hcur := hst.current_eq
  have hstmt : statement readExpression readBlock s = .ok (.block body) t := by
    -- a brace in front of a statement is never that of a hash
    unfold statement
    rw [look_bind, hcur, hx]
    have hblock : (do return .block (← readBlock) : Rule Stmt).Takes s.rest.length (.block body)
        (x :: xs) anyToken := (hb _).bind_pure rfl
    exact hblock s t (Nat.le_refl _) hst trivial
  refine first_read h ?_ ?_ hstmt htu hu
  · rw [hcur, hx]
    rfl
  · rw [hcur, hx]
    simp

theorem ended_read {st : Stmt} {ss : List Stmt} (hs : Form.Read (.simple st) xs)
    (hx : x.token = .semicolon) (h : Form.Read (.statements ss) ys) :
    Form.Read (.statements (st :: ss)) (xs ++ x :: ys) := by
  intro n inBlock s u _ hsu hu
  obtain ⟨t, hst, htu⟩ := hsu.split
  have hcur : t.current.token = .semicolon := by rw [htu.current_eq, hx]
  obtain ⟨hends, hsemi, hstmt⟩ := hs s t hst (by rw [hcur]; exact ⟨Nat.le_refl 0, by simp⟩)
  have hskip : t.currentIs .semicolon = true := by
    unfold State.currentIs
    rw [hcur]
    rfl
  rw [if_pos hskip] at hstmt
  exact first_read h hends hsemi hstmt htu.step hu

theorem unended_read {st : Stmt} {ss : List Stmt} (hs : Form.Read (.simple st) xs)
    (hy : ∀ y ∈ ys.head?, Stops y.token) (h : Form.Read (.statements ss) ys) :
    Form.Read (.statements (st :: ss)) (xs ++ ys) := by
  intro n inBlock s u _ hsu hu
  obtain ⟨t, hst, htu⟩ := hsu.split
  have hstops : Stops t.current.token := by
    cases ys with
    | nil =>
      rw [htu.eq_of_nil] at hu
      cases hc : t.current.token <;> rw [hc] at hu <;>
        first
          | (simp [endsStatements] at hu; done)
          | exact ⟨rfl, by simp, by simp⟩
    | cons y ys =>
      rw [htu.current_eq]
      exact hy y rfl
  obtain ⟨hends, hsemi, hstmt⟩ := hs s t hst ⟨by rw [hstops.1]; exact Nat.le_refl 0, hstops.2.1⟩
  have hskip : ¬ t.currentIs .semicolon = true := fun hc =>
    hstops.2.2 (Token.eq_of_kind rfl (State.kind_eq_of_currentIs hc))
  rw [if_neg hskip] at hstmt
  exact first_read h hends hsemi hstmt htu hu

end Operands

/-- A block is written from its brace on. -/
theorem Written.startsBlock {b : Block} {xs : List Lexeme} (h : Written (.block b) xs) :
    StartsBlock xs := by
  cases h with
  | block hx _ _ => exact ⟨_, _, rfl, hx⟩

/-- An operand that is closed, or has the tail of a unary operation. -/
theorem Form.read_operand {x : Lexeme} {xs : List Lexeme} {e : Expr} {tail : Nat}
    (hx : x.token.startsExpr = true)
    (h : ∀ b, (operandRule b).Takes b e (x :: xs) (Ends tail)) :
    Form.Read (.expr tight tail e) (x :: xs) :=
  fun level _ _ _ hst ht => readExpression_operand level hx h hst ht

/-- Reading what is written gives it back. -/
theorem Written.read {f : Form} {xs : List Lexeme} (h : Written f xs) : f.Read xs := by
  -- an operand is read on its own; calls, indexes and operations go on from what is on their left
  induction h with
  | leaf h => exact Form.read_operand (Lexeme.startsExpr_of_leaf? h) fun _ => leaf_takes h
  | group hx _ hb hz ih => exact Form.read_operand (by rw [hx]; rfl) fun _ => group_takes hx ih hb hz
  | array hx hitems hys hz ih =>
    exact Form.read_operand (by rw [hx]; rfl) fun _ =>
      array_takes hx (fun i hi => ⟨(hitems i hi).starts, ih i hi⟩) hys hz
  | hash hx hitems hys hz ih =>
    exact Form.read_operand (by rw [hx]; rfl) fun _ =>
      hash_takes hx (fun i hi => ⟨(hitems i hi).starts, ih i hi⟩) hys hz
  | unary hx hb he hhead htail ih =>
    exact Form.read_operand (Token.startsExpr_of_unaryOp? hx) fun _ =>
      unary_takes hx hb ih he.starts hhead htail
  | @binary x op _ _ _ _ _ _ _ _ _ _ hl hhead htail hx hb hr hhead' hk hk' ihl ihr =>
    have hrank : x.token.precedence = op.precedence := by rw [hx]; rfl
    intro level s t hlevel hst ht
    refine readExpression_continuation ihl (Nat.lt_of_lt_of_le hlevel hhead) ?_ ?_
      (fun b => binary_takes hx hb ihr hr.starts hhead' hk hk') hst ht
    · rw [hrank]
      exact hlevel
    · exact ⟨by rw [hrank]; exact htail, by rw [hx]; simp⟩
  | cond hx _ hb ihc ihb =>
    refine Form.read_operand (by rw [hx]; rfl) fun _ => ?_
    exact (cond_takes hx ihc ihb hb.startsBlock).mono fun t ht => ht.2
  | condElse hx _ hb hy _ ihc ihb ihb' =>
    exact Form.read_operand (by rw [hx]; rfl) fun _ =>
      condElse_takes hx ihc ihb hb.startsBlock hy ihb'
  | loop hx _ hb ihc ihb =>
    exact Form.read_operand (by rw [hx]; rfl) fun _ => loop_takes hx ihc ihb hb.startsBlock
  | func hx hy hnames hys hz _ ihb =>
    exact Form.read_operand (by rw [hx]; rfl) fun _ => func_takes hx hy hnames hys hz ihb
  | call _ hx hitems hys hz ihf ih =>
    intro level s t hlevel hst ht
    refine readExpression_continuation ihf hlevel (by rw [hx]; exact hlevel)
      ⟨by rw [hx]; exact Nat.le_refl _, by rw [hx]; simp⟩ (fun b => ?_) hst ht
    exact call_takes hx (fun i hi => ⟨(hitems i hi).starts, ih i hi⟩) hys hz
  | index _ hx _ hb hz ihe ihi =>
    intro level s t hlevel hst ht
    exact readExpression_continuation ihe hlevel (by rw [hx]; exact hlevel)
      ⟨by rw [hx]; exact Nat.le_refl _, by rw [hx]; simp⟩ (fun b => index_takes hx ihi hb hz) hst ht
  | item h hhead ih => exact item_read ih h.starts hhead
  | whole hb h ih => exact whole_read hb ih h.starts
  | entry _ hb hc _ ihk ihv => exact fun n => entry_takes ihk hb hc ihv
  | block hx _ hz ih => exact block_read hx ih hz
  | bind hx hn hy _ ih => exact bind_read hx hn hy ih
  | ret hx _ ih => exact ret_read hx ih
  | exprStmt hx he ih => exact exprStmt_read hx ih he.starts
  | nil => exact nil_read
  | semicolon hx _ ih => exact semicolon_read hx ih
  | blank hx _ ih => exact blank_read hx ih
  | blockStmt hb _ ihb ih => exact blockStmt_read ihb hb.startsBlock ih
  | ended _ hx _ ihs ih => exact ended_read ihs hx ih
  | unended _ hy _ ihs ih => exact unended_read ihs hy ih

/-- A text of written statements has no fault and is read as these. The end of the text stands behind
    it. -/
theorem Written.parseLexemes_eq {ss : List Stmt} {xs : List Lexeme} (h : Written (.statements ss) xs)
    {z : Lexeme} (hz : z.token = .eof) :
    (parseLexemes (xs ++ [z])).program.statements = ss ∧ (parseLexemes (xs ++ [z])).errors = [] := by
  have hread := h.read (xs ++ [z]).length false _ _ (Nat.le_refl _)
    (State.through_mk xs [z] 0 []) (by
      show endsStatements false z.token = true
      rw [hz]
      rfl)
  rw [Grammar.parseLexemes_eq hread]
  exact ⟨rfl, rfl⟩

end Scriptlet
