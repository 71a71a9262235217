import Scriptlet.Proofs.Grammar.Written
import Scriptlet.Proofs.Syntax.Grouping

/-!
# `Proofs.Grammar.Operands` — operators between operands

A sequence of operands with operators between them can be read as many trees. One of them groups as
the levels of the operators ask for, and reading gives that one. It is built by attaching operand
after operand to the right edge of the tree, each as far down as the operators there bind less tightly.

## Contents
- `IsOperand`, `IsOperandSequence`: the sequences.
- `Reads`: the trees that have a sequence as their reading, `Expr.WellGrouped`: those that group as
  they should.
- `Expr.attach`: one more operator and operand.
- `Reads.written`: a tree that groups as it should is written with its reading.
- `expression_of_operands`: reading gives the one tree that groups as it should.
-/

namespace Scriptlet

/-! ## Sequences of operands -/

/-- A name or a literal with a value, behind any number of operators that stand before operands. -/
inductive IsOperand : List Lexeme → Prop
  | leaf {x : Lexeme} {e : Expr} (h : x.leaf? = some e) : IsOperand [x]
  | unary {x : Lexeme} {op : UnaryOp} {xs : List Lexeme} (hx : x.token.unaryOp? = some op)
      (h : IsOperand xs) : IsOperand (x :: xs)

/-- Operands, each behind an operator. -/
inductive IsOperandTail : List Lexeme → Prop
  | nil : IsOperandTail []
  | cons {x : Lexeme} {op : BinaryOp} {xs ys : List Lexeme} (hx : x.token = .operator op)
      (hxs : IsOperand xs) (hys : IsOperandTail ys) : IsOperandTail (x :: (xs ++ ys))

/-- Operands with operators between them. -/
def IsOperandSequence (zs : List Lexeme) : Prop :=
  ∃ xs ys, zs = xs ++ ys ∧ IsOperand xs ∧ IsOperandTail ys

/-! ## Trees -/

/-- The lexemes of the tree from left to right; spans are those of the lexemes covered. -/
inductive Reads : Expr → List Lexeme → Prop
  | leaf {x : Lexeme} {e : Expr} (h : x.leaf? = some e) : Reads e [x]
  | unary {x : Lexeme} {op : UnaryOp} {e : Expr} {xs : List Lexeme}
      (hx : x.token.unaryOp? = some op) (h : Reads e xs) :
      Reads (.unary op e ⟨x.start, e.span.stop⟩) (x :: xs)
  | binary {x : Lexeme} {op : BinaryOp} {l r : Expr} {xs ys : List Lexeme} (hl : Reads l xs)
      (hx : x.token = .operator op) (hr : Reads r ys) :
      Reads (.binary l op r (l.span.merge r.span)) (xs ++ x :: ys)

namespace Expr

/-- Operators before an operand apply to it alone. An operation on the left of an operator binds more
    tightly than the operator, or as tightly if the operator groups to the left; one on the right binds
    more tightly, or as tightly if the operator is the power. -/
def WellGrouped : Expr → Prop
  | .unary _ e _ => e.binaryOp? = none ∧ e.WellGrouped
  | .binary l op r _ =>
    (∀ op', l.binaryOp? = some op' → op.precedence.rank < op'.precedence.rank ∨
      (op.precedence.rank = op'.precedence.rank ∧ op.rightAssociative = false)) ∧
    (∀ op', r.binaryOp? = some op' → op.precedence.rank < op'.precedence.rank ∨
      (op.precedence.rank = op'.precedence.rank ∧ op = .pow)) ∧
    l.WellGrouped ∧ r.WellGrouped
  | _ => True

theorem needsParens_eq_false_of_left {l : Expr} {op : BinaryOp}
    (h : ∀ op', l.binaryOp? = some op' → op.precedence.rank < op'.precedence.rank ∨
      (op.precedence.rank = op'.precedence.rank ∧ op.rightAssociative = false)) :
    needsParens l op false = false := by
  unfold needsParens
  split
  · next l' op' r' s =>
    rcases h op' rfl with hlt | ⟨heq, hassoc⟩
    · simp
      omega
    · simp [heq, hassoc]
  · rfl

theorem needsParens_eq_false_of_right {r : Expr} {op : BinaryOp}
    (h : ∀ op', r.binaryOp? = some op' → op.precedence.rank < op'.precedence.rank ∨
      (op.precedence.rank = op'.precedence.rank ∧ op = .pow)) :
    needsParens r op true = false := by
  unfold needsParens
  split
  · next l' op' r' s =>
    rcases h op' rfl with hlt | ⟨heq, rfl⟩
    · simp
      omega
    · simp [← heq, BinaryOp.rightAssociative]
  · rfl

end Expr

theorem Lexeme.binaryOp?_of_leaf? {x : Lexeme} {e : Expr} (h : x.leaf? = some e) :
    e.binaryOp? = none ∧ e.tail = tight ∧ e.WellGrouped := by
  unfold Lexeme.leaf? at h
  split at h
  · cases h
    exact ⟨rfl, rfl, trivial⟩
  · obtain ⟨value, -, rfl⟩ := Option.map_eq_some_iff.mp h
    exact ⟨rfl, rfl, trivial⟩
  · obtain ⟨value, -, rfl⟩ := Option.map_eq_some_iff.mp h
    exact ⟨rfl, rfl, trivial⟩
  · cases h
    exact ⟨rfl, rfl, trivial⟩
  · cases h
    exact ⟨rfl, rfl, trivial⟩
  · cases h
    exact ⟨rfl, rfl, trivial⟩
  · cases h

/-- A tree that groups as it should is written with its reading. -/
theorem Reads.written {e : Expr} {xs : List Lexeme} (h : Reads e xs) (hg : e.WellGrouped) :
    Written (.expr e.head e.tail e) xs := by
  induction h with
  | leaf h =>
    obtain ⟨hop, htail, -⟩ := Lexeme.binaryOp?_of_leaf? h
    rw [(Expr.head_tail_of_none hop).1, htail]
    exact .leaf h
  | unary hx _ ih =>
    obtain ⟨hop, hg⟩ := hg
    obtain ⟨hhead, htail⟩ := Expr.head_tail_of_none hop
    refine @Written.unary _ _ _ _ _ [] _ hx blanks_nil (ih hg) ?_ htail
    rw [hhead]
    exact Nat.lt_succ_self 13
  | binary _ hx _ ihl ihr =>
    obtain ⟨hleft, hright, hl, hr⟩ := hg
    obtain ⟨hhead, htail⟩ := Expr.head_tail_of_left (Expr.needsParens_eq_false_of_left hleft)
    obtain ⟨hhead', htail'⟩ := Expr.head_tail_of_right (Expr.needsParens_eq_false_of_right hright)
    exact @Written.binary _ _ _ _ _ _ _ _ _ _ [] _ (ihl hl) hhead htail hx blanks_nil (ihr hr) hhead'
      (Nat.le_refl _) htail'

/-! ## One more operand -/

namespace Expr

/-- The tree with one more operator and operand at its right edge. They go below an operation whose
    operator lets them, that is, one that binds less tightly on its right. -/
def attach (op : BinaryOp) (o : Expr) : Expr → Expr
  | .binary l op' r s =>
    if op'.rightPrecedence.rank < op.precedence.rank then
      .binary l op' (attach op o r) (l.span.merge (attach op o r).span)
    else .binary (.binary l op' r s) op o (s.merge o.span)
  | e => .binary e op o (e.span.merge o.span)

theorem attach_of_none {op : BinaryOp} {o e : Expr} (h : e.binaryOp? = none) :
    attach op o e = .binary e op o (e.span.merge o.span) := by
  cases e with
  | binary => cases h
  | ident | int | float | bool | str | array | hash | unary | cond | loop | func | call | index => rfl

/-- The operator on top is the one that was there or the new one. -/
theorem binaryOp?_attach (op : BinaryOp) (o e : Expr) :
    (attach op o e).binaryOp? = some op ∨
      ∃ op', e.binaryOp? = some op' ∧ (attach op o e).binaryOp? = some op' := by
  cases he : e.binaryOp? with
  | none =>
    rw [attach_of_none he]
    exact Or.inl rfl
  | some op' =>
    cases e with
    | binary l op'' r s =>
      unfold attach
      split
      · cases he
        exact Or.inr ⟨_, rfl, rfl⟩
      · exact Or.inl rfl
    | ident | int | float | bool | str | array | hash | unary | cond | loop | func | call | index =>
      cases he

end Expr

/-- The new operator and operand come last. -/
theorem Reads.attach {x : Lexeme} {op : BinaryOp} {e o : Expr} {xs ys : List Lexeme}
    (h : Reads e xs) (hx : x.token = .operator op) (ho : Reads o ys) :
    Reads (Expr.attach op o e) (xs ++ x :: ys) := by
  induction h with
  | leaf h =>
    rw [Expr.attach_of_none (Lexeme.binaryOp?_of_leaf? h).1]
    exact .binary (.leaf h) hx ho
  | unary hy h _ => exact .binary (.unary hy h) hx ho
  | binary hl hy hr _ ih =>
    unfold Expr.attach
    split
    · rw [List.append_assoc, List.cons_append]
      exact .binary hl hy ih
    · exact .binary (.binary hl hy hr) hx ho

/-- The tree goes on grouping as it should. -/
theorem Expr.WellGrouped.attach {e o : Expr} {xs : List Lexeme} (h : Reads e xs)
    (hg : e.WellGrouped) (op : BinaryOp) (ho : o.WellGrouped) (hop : o.binaryOp? = none) :
    (Expr.attach op o e).WellGrouped := by
  have hright : ∀ op', o.binaryOp? = some op' → op.precedence.rank < op'.precedence.rank ∨
      (op.precedence.rank = op'.precedence.rank ∧ op = .pow) := by
    intro op' hop'
    rw [hop] at hop'
    cases hop'
  induction h with
  | leaf h =>
    obtain ⟨hnone, -, -⟩ := Lexeme.binaryOp?_of_leaf? h
    rw [attach_of_none hnone]
    refine ⟨fun op' hop' => ?_, hright, hg, ho⟩
    rw [hnone] at hop'
    cases hop'
  | unary hy h _ =>
    refine ⟨fun op' hop' => ?_, hright, hg, ho⟩
    cases hop'
  | @binary y op' l r _ _ hl hy hr _ ih =>
    obtain ⟨hleft', hright', hgl, hgr⟩ := hg
    have hbounds := op'.rank_rightPrecedence_bounds
    have hrank := op'.rank_rightPrecedence
    have hpow' := op'.rank_eq_twelve_iff
    have hpow := op.rank_eq_twelve_iff
    unfold Expr.attach
    split
    · next hlt =>
      -- the new operator binds more tightly than the level on the right of `op'`
      refine ⟨hleft', fun op'' hop'' => ?_, hgl, ih hgr⟩
      rcases binaryOp?_attach op o r with htop | ⟨op₁, hr₁, htop⟩
      · rw [htop] at hop''
        cases hop''
        by_cases hp : op' = .pow
        · rw [if_pos hp] at hrank
          have h12 := hpow'.mpr hp
          by_cases heq : op'.precedence.rank = op.precedence.rank
          · exact Or.inr ⟨heq, hp⟩
          · left
            omega
        · rw [if_neg hp] at hrank
          left
          omega
      · rw [htop] at hop''
        cases hop''
        exact hright' _ hr₁
    · next hge =>
      refine ⟨fun op'' hop'' => ?_, hright, ⟨hleft', hright', hgl, hgr⟩, ho⟩
      cases hop''
      by_cases heq : op.precedence.rank = op'.precedence.rank
      · -- equal levels: the power would have gone below
        have hne : op' ≠ .pow := by
          intro hp
          rw [if_pos hp] at hrank
          have h12 := hpow'.mpr hp
          omega
        refine Or.inr ⟨heq, ?_⟩
        by_cases hp : op = .pow
        · exact absurd (hpow'.mp (heq ▸ hpow.mpr hp)) hne
        · simpa [BinaryOp.rightAssociative] using hp
      · left
        omega

/-! ## All operands -/

theorem IsOperand.exists_reads {xs : List Lexeme} (h : IsOperand xs) :
    ∃ o, Reads o xs ∧ o.WellGrouped ∧ o.binaryOp? = none := by
  induction h with
  | leaf h =>
    obtain ⟨hop, -, hg⟩ := Lexeme.binaryOp?_of_leaf? h
    exact ⟨_, .leaf h, hg, hop⟩
  | unary hx _ ih =>
    obtain ⟨o, hreads, hg, hop⟩ := ih
    exact ⟨_, .unary hx hreads, ⟨hop, hg⟩, rfl⟩

/-- Operand after operand is attached to the tree of those before. -/
theorem IsOperandTail.exists_reads {ys : List Lexeme} (h : IsOperandTail ys) {e : Expr}
    {xs : List Lexeme} (hreads : Reads e xs) (hg : e.WellGrouped) :
    ∃ e', Reads e' (xs ++ ys) ∧ e'.WellGrouped := by
  induction h generalizing e xs with
  | nil => exact ⟨e, by rwa [List.append_nil], hg⟩
  | @cons x op zs ys hx hzs _ ih =>
    obtain ⟨o, ho, hog, hop⟩ := hzs.exists_reads
    have hattach := ih (hreads.attach hx ho) (Expr.WellGrouped.attach hreads hg op hog hop)
    rwa [List.append_assoc, List.cons_append] at hattach

theorem IsOperandSequence.exists_reads {zs : List Lexeme} (h : IsOperandSequence zs) :
    ∃ e, Reads e zs ∧ e.WellGrouped := by
  obtain ⟨xs, ys, rfl, hxs, hys⟩ := h
  obtain ⟨o, ho, hg, -⟩ := hxs.exists_reads
  exact hys.exists_reads ho hg

namespace Grammar

/-- A tree that groups as it should is what its reading gives, up to a semicolon or the end. -/
theorem expression_of_reads {e : Expr} {zs ys : List Lexeme} (h : Reads e zs) (hg : e.WellGrouped)
    (hend : ∀ y ∈ ys.head?, y.token = .semicolon ∨ y.token = .eof) {stop b : Nat}
    {errors : List SyntaxError} (hb : budgetFor (zs ++ ys).length ≤ b) :
    expression b .lowest ⟨zs ++ ys, stop, errors⟩ = .ok e ⟨ys, lastStop stop zs, errors⟩ := by
  have hitem : Written (.item e) zs := .item (h.written hg) e.head_pos
  have hends : Ends 0 (State.mk ys (lastStop stop zs) errors).current.token := by
    cases ys with
    | nil => exact ⟨Nat.le_refl 0, by simp [State.current, Lexeme.endAt]⟩
    | cons y ys =>
      show Ends 0 y.token
      rcases hend y rfl with hy | hy
      · rw [hy]
        exact ⟨Nat.le_refl 0, by simp⟩
      · rw [hy]
        exact ⟨Nat.le_refl 0, by simp⟩
  rw [expression_of_le hb]
  exact hitem.read _ _ _ (Nat.le_refl _) (State.through_mk zs ys stop errors) hends

/-- Operands with operators between them, up to a semicolon or the end of the text, are read as the one
    tree that has them as its reading and groups as it should. -/
theorem expression_of_operands {zs ys : List Lexeme} (h : IsOperandSequence zs)
    (hend : ∀ y ∈ ys.head?, y.token = .semicolon ∨ y.token = .eof) {stop b : Nat}
    {errors : List SyntaxError} (hb : budgetFor (zs ++ ys).length ≤ b) :
    ∃ e, expression b .lowest ⟨zs ++ ys, stop, errors⟩ = .ok e ⟨ys, lastStop stop zs, errors⟩ ∧
      Reads e zs ∧ e.WellGrouped ∧ ∀ e', Reads e' zs → e'.WellGrouped → e' = e := by
  obtain ⟨e, hreads, hg⟩ := h.exists_reads
  have hread : expression b .lowest ⟨zs ++ ys, stop, errors⟩ = .ok e ⟨ys, lastStop stop zs, errors⟩ :=
    expression_of_reads hreads hg hend hb
  -- reading gives every such tree, and it gives only one
  refine ⟨e, hread, hreads, hg, fun e' hreads' hg' => ?_⟩
  rw [expression_of_reads hreads' hg' hend hb] at hread
  cases hread
  rfl

/-- In `a = - b ** c ** d ;` the minus goes with `b` alone and the powers group to the right. -/
theorem expression_of_operands_powers :
    let zs : List Lexeme := [⟨0, .ident "a", 1⟩, ⟨2, .operator .assign, 3⟩, ⟨4, .operator .sub, 5⟩,
      ⟨6, .ident "b", 7⟩, ⟨8, .operator .pow, 10⟩, ⟨11, .ident "c", 12⟩, ⟨13, .operator .pow, 15⟩,
      ⟨16, .ident "d", 17⟩]
    let ys : List Lexeme := [⟨17, .semicolon, 18⟩]
    IsOperandSequence zs ∧ (∀ y ∈ ys.head?, y.token = .semicolon ∨ y.token = .eof) ∧
      budgetFor (zs ++ ys).length ≤ 80 ∧
      ∃ e, expression 80 .lowest ⟨zs ++ ys, 0, []⟩ = .ok e ⟨ys, 17, []⟩ ∧
        Reads e zs ∧ e.WellGrouped ∧ ∀ e', Reads e' zs → e'.WellGrouped → e' = e := by
  intro zs ys
  have hleaf : ∀ (n m : Nat) (s : String), IsOperand [⟨n, .ident s, m⟩] := fun n m s => .leaf rfl
  have hminus : IsOperand [⟨4, .operator .sub, 5⟩, ⟨6, .ident "b", 7⟩] := by
    have hneg : (Token.operator .sub).unaryOp? = some .neg := rfl
    exact .unary hneg (hleaf 6 7 "b")
  have hpowers : IsOperandTail [⟨8, .operator .pow, 10⟩, ⟨11, .ident "c", 12⟩,
      ⟨13, .operator .pow, 15⟩, ⟨16, .ident "d", 17⟩] :=
    .cons rfl (hleaf 11 12 "c") (.cons rfl (hleaf 16 17 "d") .nil)
  have hsequence : IsOperandSequence zs :=
    ⟨[⟨0, .ident "a", 1⟩], zs.tail, rfl, hleaf 0 1 "a", .cons rfl hminus hpowers⟩
  have hend : ∀ y ∈ ys.head?, y.token = .semicolon ∨ y.token = .eof := by decide
  have hb : budgetFor (zs ++ ys).length ≤ 80 := by decide
  exact ⟨hsequence, hend, hb, expression_of_operands hsequence hend hb⟩

end Grammar

end Scriptlet
