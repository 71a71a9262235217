import Scriptlet.Proofs.Grammar.Derived

/-!
# `Proofs.Grammar.Alone` — an expression that is a whole text

A text may be an expression from its start to its end. Which one it is can be said of its tokens: the
lexemes in front of the end are those that the expression is written with. Of these a tree keeps the
same ones wherever it stands, so as many of them as of the words of its canonical text.

## Contents
- `Expr.ofText?`: the expression that a text is. `Expr.ofText?_eq_some_iff`: the lexemes of the text.
- `ReadAs.tokens`: the tokens of a text that is read as some words.
- `Written.keptTokens_eq`: what a tree keeps of the lexemes it is written with.
-/

namespace Scriptlet

/-- The expression that a text is from its start to its end, if it is read without a fault. -/
def Expr.ofText? (text : String) : Option Expr :=
  match Grammar.readExpression .lowest (.ofLexemes (tokenize text)) with
  | .ok e t => if t.errors.isEmpty && t.currentIs .eof then some e else none
  | .error .. | .starved => none

/-! ## Reading -/

/-- What reading a whole expression takes, and what of it the expression keeps. -/
theorem Grammar.readExpression_taken {s t : State} {e : Expr}
    (h : readExpression .lowest s = .ok e t) (hnone : t.errors = []) :
    ∃ xs, s.Through xs t ∧ Written (.whole e) xs ∧ keptTokens xs = e.tokens ∧
      ∀ x ∈ xs, x.token.isWord = true := by
  obtain ⟨xs, hst, hwritten⟩ := (rules_derive _).expression .lowest s tight_pos e t h hnone
  obtain ⟨-, ts, ⟨ys, hrest, hword, hkept⟩, htokens⟩ :=
    (rules_read _).expression .lowest s e t h hnone
  have hys : xs = ys := List.append_cancel_right (hst.rest.symm.trans hrest)
  subst hys
  exact ⟨xs, hst, hwritten.whole.1, hkept.trans htokens, hword⟩

theorem State.token_of_currentIs_eof {s : State} (h : s.currentIs .eof = true) :
    s.current.token = .eof :=
  Token.eq_of_kind rfl (State.kind_eq_of_currentIs h)

/-- A text is an expression if its lexemes up to the end are those of the expression. -/
theorem Expr.ofText?_eq_some_iff {text : String} {e : Expr} : Expr.ofText? text = some e ↔
    ∃ xs last, tokenize text = xs ++ [last] ∧ last.token = .eof ∧ Written (.whole e) xs := by
  unfold Expr.ofText?
  constructor
  · intro h
    split at h
    · next e' t hread =>
      split at h
      · next hend =>
        cases h
        rw [Bool.and_eq_true, List.isEmpty_iff] at hend
        obtain ⟨hnone, heof⟩ := hend
        obtain ⟨xs, hst, hwritten, -, hword⟩ := Grammar.readExpression_taken hread hnone
        obtain ⟨ys, last, hsource, hlast, hne⟩ := (Lexer.ofChars text.toList).lexemes_end
        have hxs : ∀ x ∈ xs, x.token ≠ .eof := fun x hx => Token.ne_eof_of_isWord (hword x hx)
        have hends : ∀ z ∈ t.rest.head?, z.token = .eof := fun z hz =>
          State.current_of_head? hz ▸ State.token_of_currentIs_eof heof
        have hys : ys = xs := eq_of_ends hne hlast hxs hends (hsource.symm.trans hst.rest)
        exact ⟨xs, last, hys ▸ hsource, hlast, hwritten⟩
      · cases h
    · cases h
    · cases h
  · intro ⟨xs, last, hsource, hlast, hwritten⟩
    have hread := hwritten.read (xs ++ [last]).length _ _ (Nat.le_refl _)
      (State.through_mk xs [last] 0 []) (by
        show Ends 0 last.token
        rw [hlast]
        exact ⟨Nat.le_refl 0, by simp⟩)
    unfold State.ofLexemes
    rw [hsource, hread]
    show (if (true && decide (last.token.kind = Token.eof.kind)) then some e else none) = some e
    rw [hlast]
    rfl

/-- The tokens of a text that is read as some words. -/
theorem ReadAs.tokens {text : String} {ts : List Token} (h : ReadAs text ts) :
    (tokenize text).map Lexeme.token = ts ++ [.eof] := by
  obtain ⟨c, cs, htext, hc, -⟩ := h.starts
  have hspells : Spells text ts [] := h.spells [] fun _ hc => nomatch hc
  unfold Spells at hspells
  rw [List.append_nil, htext, tokensOf_nil] at hspells
  unfold tokenize
  rw [htext, tokens_start hc, hspells]

/-- A text that is read as some words is an expression if lexemes with these words are. -/
theorem ReadAs.ofText?_eq_some {text : String} {ts : List Token} (h : ReadAs text ts) {e : Expr} :
    Expr.ofText? text = some e →
      ∃ xs, xs.map Lexeme.token = ts ∧ Written (.whole e) xs := by
  intro he
  obtain ⟨xs, last, hsource, hlast, hwritten⟩ := Expr.ofText?_eq_some_iff.mp he
  have htokens := h.tokens
  rw [hsource, List.map_append, List.map_singleton, hlast] at htokens
  exact ⟨xs, List.append_cancel_right htokens, hwritten⟩

/-! ## What a tree keeps -/

theorem Written.head_pos {head tail : Nat} {e : Expr} {xs : List Lexeme}
    (h : Written (.expr head tail e) xs) : 0 < head := by
  cases h with
  | @binary _ op => exact op.rank_precedence_bounds.1
  | leaf | group | array | hash | unary | cond | condElse | loop | func | call | index =>
    exact tight_pos

/-- Reading what is written keeps it. -/
theorem Written.keptTokens_eq {head tail : Nat} {e : Expr} {xs : List Lexeme}
    (h : Written (.expr head tail e) xs) : keptTokens xs = e.tokens := by
  have hwhole : Written (.whole e) ([] ++ xs) := .whole blanks_nil (.item h h.head_pos)
  have hread := hwhole.read xs.length _ _ (by simp) (State.through_mk xs [] 0 [])
    ⟨Nat.le_refl 0, nofun⟩
  obtain ⟨ys, hst, -, hkept, -⟩ := Grammar.readExpression_taken hread rfl
  have hys : xs = ys := List.append_cancel_right hst.rest
  rw [hys, hkept]

/-- Trees that differ in places and blank lines alone are written with the same tokens. -/
theorem Written.keptTokens_of_normal {head tail : Nat} {e e' : Expr} {xs : List Lexeme}
    (h : Written (.expr head tail e') xs) (hnormal : e'.normal = e.normal) :
    keptTokens xs = e.tokens := by
  rw [h.keptTokens_eq, ← Expr.tokens_normal e', hnormal, Expr.tokens_normal]

end Scriptlet
