import Scriptlet.Proofs.Grammar.Spoken

/-!
# `Proofs.Grammar.Kept` — reading keeps every token

A tree that was read without a fault still has all the tokens it was read from, in their order.
Parentheses, semicolons and blank lines are the only ones that leave no trace.

## Contents
- `Token.isKept`: the tokens that a tree keeps. `Program.tokens`: a program read back token by token.
- `Expr.tokens_normal` and the like: places and blank lines are none of the tokens of a tree.
- `State.Spends`: the tokens that are kept from the lexemes between two states.
- `Rule.Reads`: where a rule gives a result and no fault was noted, the result has the tokens that stood
  before it and those it spent. `Rule.Reads.bind` composes it; there is one lemma for each rule.
- `rules_read`: the recursive rules. `parse_tokens`: the program of a text.
-/

namespace Scriptlet

/-! ## The tokens of a tree -/

namespace Token

/-- Tokens that a tree keeps. -/
def isKept : Token → Bool
  | leftParen | rightParen | semicolon | blankLine => false
  | _ => true

/-- What a tree keeps of the token. -/
def kept (t : Token) : List Token := [t].filter isKept

theorem kept_eq (t : Token) : t.kept = if t.isKept then [t] else [] := by
  unfold kept
  cases h : t.isKept <;> simp [h]

/-- Words of the language. -/
def isWord : Token → Bool
  | illegal _ | eof => false
  | _ => true

theorem ne_eof_of_isWord {t : Token} (h : t.isWord = true) : t ≠ .eof := by
  intro heof
  rw [heof] at h
  cases h

/-- Words with one spelling. -/
def isFixed (t : Token) : Bool := t.isWord && !t.carriesText

end Token

/-- What a tree keeps of some lexemes. -/
def keptTokens (xs : List Lexeme) : List Token := (xs.map Lexeme.token).filter Token.isKept

mutual

/-- The tokens of an expression. -/
def Expr.tokens : Expr → List Token
  | .ident name => [.ident name.name]
  | .int _ spelling _ => [.int spelling]
  | .float _ spelling _ => [.float spelling]
  | .bool value _ => [if value then .kwTrue else .kwFalse]
  | .str value _ => [.str value]
  | .array elements _ => [.leftBracket] ++ commaWords (Expr.tokensList elements) ++ [.rightBracket]
  | .hash entries _ => [.leftBrace] ++ commaWords (Entry.tokensList entries) ++ [.rightBrace]
  | .unary op operand _ => [op.token] ++ operand.tokens
  | .binary left op right _ => left.tokens ++ [.operator op] ++ right.tokens
  | .cond condition consequence alternative _ =>
    [.kwIf] ++ condition.tokens ++ consequence.tokens ++ Block.tokensElse alternative
  | .loop condition body _ => [.kwWhile] ++ condition.tokens ++ body.tokens
  | .func parameters body _ =>
    [.kwFn] ++ commaWords (parameters.map fun p => [.ident p.name]) ++ body.tokens
  | .call callee arguments _ => callee.tokens ++ commaWords (Expr.tokensList arguments)
  | .index target position _ =>
    target.tokens ++ [.leftBracket] ++ position.tokens ++ [.rightBracket]

/-- The tokens of several expressions. -/
def Expr.tokensList : List Expr → List (List Token)
  | [] => []
  | e :: es => e.tokens :: Expr.tokensList es

/-- The tokens of a key, a colon and those of its value. -/
def Entry.tokens : Entry → List Token
  | ⟨key, value⟩ => key.tokens ++ [.colon] ++ value.tokens

/-- The tokens of several entries. -/
def Entry.tokensList : List Entry → List (List Token)
  | [] => []
  | p :: ps => p.tokens :: Entry.tokensList ps

/-- The tokens of a condition after its consequence. -/
def Block.tokensElse : Option Block → List Token
  | none => []
  | some body => [.kwElse] ++ body.tokens

/-- The tokens of a statement. -/
def Stmt.tokens : Stmt → List Token
  | .bind name value _ => [.kwLet, .ident name.name, .operator .assign] ++ value.tokens
  | .ret value _ => [.kwReturn] ++ value.tokens
  | .expr value => value.tokens
  | .block body => body.tokens
  | .blank _ => []

/-- The tokens of several statements. -/
def Stmt.tokensList : List Stmt → List Token
  | [] => []
  | s :: ss => s.tokens ++ Stmt.tokensList ss

/-- The tokens of a block. -/
def Block.tokens : Block → List Token
  | ⟨statements, _⟩ => [.leftBrace] ++ Stmt.tokensList statements ++ [.rightBrace]

end

/-- The tokens of a program. -/
def Program.tokens (p : Program) : List Token := Stmt.tokensList p.statements

theorem Expr.tokensList_eq (es : List Expr) : Expr.tokensList es = es.map Expr.tokens := by
  induction es with
  | nil => rfl
  | cons e es ih => exact congrArg (e.tokens :: ·) ih

theorem Entry.tokensList_eq (ps : List Entry) : Entry.tokensList ps = ps.map Entry.tokens := by
  induction ps with
  | nil => rfl
  | cons p ps ih => exact congrArg (p.tokens :: ·) ih

/-! ### Normal forms -/

theorem Stmt.tokens_of_isBlank {s : Stmt} (h : s.isBlank = true) : s.tokens = [] := by
  cases s with
  | blank => rfl
  | bind | ret | expr | block => cases h

/-- The tokens of several statements are those of the ones that are no blank lines. -/
theorem Stmt.tokensList_eq (ss : List Stmt) :
    Stmt.tokensList ss = (ss.filter (!Stmt.isBlank ·)).flatMap Stmt.tokens := by
  induction ss with
  | nil => rfl
  | cons s ss ih =>
    unfold Stmt.tokensList
    rw [ih]
    by_cases hs : s.isBlank = true
    · rw [Stmt.tokens_of_isBlank hs, List.filter_cons_of_neg (by simp [hs]), List.nil_append]
    · rw [List.filter_cons_of_pos (by simpa using hs), List.flatMap_cons]

theorem Stmt.tokensList_trimGaps (ss : List Stmt) :
    Stmt.tokensList (trimGaps Stmt.isBlank ss) = Stmt.tokensList ss := by
  rw [Stmt.tokensList_eq, filter_trimGaps, ← Stmt.tokensList_eq]

mutual

theorem Expr.tokens_normal : ∀ e : Expr, e.normal.tokens = e.tokens
  | .ident _ | .int .. | .float .. | .bool .. | .str .. => rfl
  | .array elements _ => by
    unfold Expr.normal Expr.tokens
    rw [Expr.tokensList_normal elements]
  | .hash entries _ => by
    unfold Expr.normal Expr.tokens
    rw [Entry.tokensList_normal entries]
  | .unary _ operand _ => by
    unfold Expr.normal Expr.tokens
    rw [Expr.tokens_normal operand]
  | .binary left _ right _ => by
    unfold Expr.normal Expr.tokens
    rw [Expr.tokens_normal left, Expr.tokens_normal right]
  | .cond condition consequence alternative _ => by
    unfold Expr.normal Expr.tokens
    rw [Expr.tokens_normal condition, Block.tokens_normal consequence,
      Block.tokensElse_normal alternative]
  | .loop condition body _ => by
    unfold Expr.normal Expr.tokens
    rw [Expr.tokens_normal condition, Block.tokens_normal body]
  | .func parameters body _ => by
    unfold Expr.normal Expr.tokens
    rw [Block.tokens_normal body, List.map_map]
    rfl
  | .call callee arguments _ => by
    unfold Expr.normal Expr.tokens
    rw [Expr.tokens_normal callee, Expr.tokensList_normal arguments]
  | .index target position _ => by
    unfold Expr.normal Expr.tokens
    rw [Expr.tokens_normal target, Expr.tokens_normal position]

theorem Expr.tokensList_normal : ∀ es : List Expr,
    Expr.tokensList (Expr.normalList es) = Expr.tokensList es
  | [] => rfl
  | e :: es => by
    unfold Expr.normalList Expr.tokensList
    rw [Expr.tokens_normal e, Expr.tokensList_normal es]

theorem Entry.tokens_normal : ∀ p : Entry, p.normal.tokens = p.tokens
  | ⟨key, value⟩ => by
    unfold Entry.normal Entry.tokens
    rw [Expr.tokens_normal key, Expr.tokens_normal value]

theorem Entry.tokensList_normal : ∀ ps : List Entry,
    Entry.tokensList (Entry.normalList ps) = Entry.tokensList ps
  | [] => rfl
  | p :: ps => by
    unfold Entry.normalList Entry.tokensList
    rw [Entry.tokens_normal p, Entry.tokensList_normal ps]

theorem Block.tokensElse_normal : ∀ b : Option Block,
    Block.tokensElse (Block.normalOption b) = Block.tokensElse b
  | none => rfl
  | some body => by
    unfold Block.normalOption Block.tokensElse
    rw [Block.tokens_normal body]

theorem Stmt.tokens_normal : ∀ s : Stmt, s.normal.tokens = s.tokens
  | .bind _ value _ => by
    unfold Stmt.normal Stmt.tokens
    rw [Expr.tokens_normal value]
    rfl
  | .ret value _ => by
    unfold Stmt.normal Stmt.tokens
    rw [Expr.tokens_normal value]
  | .expr value => by
    unfold Stmt.normal Stmt.tokens
    rw [Expr.tokens_normal value]
  | .block body => by
    unfold Stmt.normal Stmt.tokens
    rw [Block.tokens_normal body]
  | .blank _ => rfl

theorem Stmt.tokensList_normal : ∀ ss : List Stmt,
    Stmt.tokensList (Stmt.normalList ss) = Stmt.tokensList ss
  | [] => rfl
  | s :: ss => by
    unfold Stmt.normalList Stmt.tokensList
    rw [Stmt.tokens_normal s, Stmt.tokensList_normal ss]

theorem Block.tokens_normal : ∀ b : Block, b.normal.tokens = b.tokens
  | ⟨statements, _⟩ => by
    unfold Block.normal Block.tokens
    rw [Stmt.tokensList_trimGaps, Stmt.tokensList_normal statements]

end

/-! ## From state to state -/

/-- Between `s` and `t` stand words of which a tree keeps `ts`. -/
def State.Spends (s : State) (ts : List Token) (t : State) : Prop :=
  ∃ xs, s.rest = xs ++ t.rest ∧ (∀ x ∈ xs, x.token.isWord = true) ∧ keptTokens xs = ts

namespace State

variable {s t u : State} {ts us : List Token}

theorem Spends.refl (s : State) : s.Spends [] s := ⟨[], rfl, by simp, rfl⟩

theorem Spends.trans (h : s.Spends ts t) (h' : t.Spends us u) : s.Spends (ts ++ us) u := by
  obtain ⟨xs, hrest, hword, rfl⟩ := h
  obtain ⟨ys, hrest', hword', rfl⟩ := h'
  refine ⟨xs ++ ys, ?_, ?_, ?_⟩
  · rw [hrest, hrest', List.append_assoc]
  · intro x hx
    rcases List.mem_append.mp hx with hx | hx
    · exact hword x hx
    · exact hword' x hx
  · simp [keptTokens]

/-- A word is there to be taken. -/
theorem spends_step (h : s.current.token.isWord = true) :
    s.Spends s.current.token.kept s.step := by
  obtain ⟨xs, hrest⟩ := rest_eq_cons (Token.ne_eof_of_isWord h)
  refine ⟨[s.current], ?_, ?_, rfl⟩
  · rw [rest_step, hrest]
    rfl
  · intro x hx
    rw [List.mem_singleton.mp hx]
    exact h

theorem spends_skipBlankLines (s : State) : s.Spends [] s.skipBlankLines := by
  obtain ⟨bs, hblank, hrest, -⟩ := dropBlankLines_eq s.rest s.stop
  refine ⟨bs, hrest, ?_, ?_⟩
  · intro x hx
    rw [hblank x hx]
    rfl
  · refine List.filter_eq_nil_iff.mpr fun t ht => ?_
    obtain ⟨x, hx, rfl⟩ := List.mem_map.mp ht
    rw [hblank x hx]
    decide

theorem token_of_currentIs {x : Token} (hx : x.isFixed = true) (h : s.currentIs x = true) :
    s.current.token = x := by
  unfold Token.isFixed at hx
  rw [Bool.and_eq_true, Bool.not_eq_true'] at hx
  exact Token.eq_of_kind hx.2 (kind_eq_of_currentIs h)

end State

/-! ## Rules -/

/-- Where the rule gives a result at `s` and no fault was noted, the tokens of the result are those
    that stood before it and those it spent. -/
def Rule.ReadsAt {α : Type} (s : State) (before : List Token) (tokens : α → List Token)
    (r : Rule α) : Prop :=
  ∀ a t, r s = .ok a t → t.errors = [] →
    s.errors = [] ∧ ∃ ts, s.Spends ts t ∧ before ++ ts = tokens a

/-- The same at every state. -/
def Rule.Reads {α : Type} (before : List Token) (tokens : α → List Token) (r : Rule α) : Prop :=
  ∀ s : State, r.ReadsAt s before tokens

namespace Rule

variable {α β : Type} {before : List Token} {tokens : α → List Token} {tokens' : β → List Token}
  {s : State}

/-- What stood before the rule is read by none of it. -/
theorem ReadsAt.after {r : Rule α} (hr : r.ReadsAt s [] tokens) :
    r.ReadsAt s before fun a => before ++ tokens a := by
  intro a t ht hnone
  obtain ⟨hs, ts, hts, ha⟩ := hr a t ht hnone
  exact ⟨hs, ts, hts, congrArg (before ++ ·) ha⟩

/-- The second rule goes on with the tokens of the first one's result. -/
theorem ReadsAt.andThen {r : Rule α} {f : α → Rule β} (hr : r.ReadsAt s before tokens)
    (hf : ∀ a, (f a).Reads (tokens a) tokens') : (r >>= f).ReadsAt s before tokens' := by
  intro b u hu hnone
  rw [bind_apply] at hu
  cases hrs : r s with
  | ok a t =>
    rw [hrs] at hu
    obtain ⟨ht, us, hus, hb⟩ := hf a t b u hu hnone
    obtain ⟨hs, ts, hts, ha⟩ := hr a t hrs ht
    refine ⟨hs, ts ++ us, hts.trans hus, ?_⟩
    rw [← hb, ← ha, List.append_assoc]
  | error e t =>
    rw [hrs] at hu
    cases hu
  | starved =>
    rw [hrs] at hu
    cases hu

theorem ReadsAt.bind {r : Rule α} {f : α → Rule β} (hr : r.ReadsAt s [] tokens)
    (hf : ∀ a, (f a).Reads (before ++ tokens a) tokens') : (r >>= f).ReadsAt s before tokens' :=
  hr.after.andThen hf

theorem Reads.bind {r : Rule α} {f : α → Rule β} (hr : r.Reads [] tokens)
    (hf : ∀ a, (f a).Reads (before ++ tokens a) tokens') : (r >>= f).Reads before tokens' :=
  fun s => (hr s).bind hf

theorem reads_pure {a : α} (h : before = tokens a) : (pure a : Rule α).Reads before tokens := by
  intro s a' t ht hnone
  rw [pure_apply] at ht
  cases ht
  exact ⟨hnone, [], State.Spends.refl s, by rw [List.append_nil, h]⟩

theorem reads_fail (fault : Fault) (span : Span) : (fail fault span : Rule α).Reads before tokens :=
  fun _ _ _ h => nomatch h

theorem reads_starve : (starve : Rule α).Reads before tokens := fun _ _ _ h => nomatch h

/-- What is read may depend on the token in front. -/
theorem readsAt_look_bind {f : Lexeme → Rule β} (h : (f s.current).ReadsAt s before tokens') :
    (look >>= f).ReadsAt s before tokens' := h

theorem reads_look_bind {f : Lexeme → Rule β}
    (h : ∀ s : State, (f s.current).ReadsAt s before tokens') : (look >>= f).Reads before tokens' :=
  fun s => readsAt_look_bind (h s)

/-- A word that is taken. -/
theorem readsAt_step {r : Rule α} {a : α} {x : Token} (hx : s.current.token = x)
    (hword : x.isWord = true) (hr : r s = .ok a s.step) :
    r.ReadsAt s [] fun _ => x.kept := by
  intro b t ht hnone
  rw [hr] at ht
  cases ht
  rw [State.errors_step] at hnone
  have hstep := State.spends_step (s := s) (by rw [hx]; exact hword)
  rw [hx] at hstep
  exact ⟨hnone, _, hstep, rfl⟩

theorem readsAt_take_bind {f : Lexeme → Rule β} {x : Token} (hx : s.current.token = x)
    (hword : x.isWord = true)
    (hf : (f s.current).Reads (before ++ x.kept) tokens') :
    (take >>= f).ReadsAt s before tokens' :=
  -- what follows is known for the lexeme in front alone
  ReadsAt.bind (r := fun s' => .ok s.current s'.step) (f := fun _ => f s.current)
    (readsAt_step hx hword rfl) fun _ => hf

theorem skipBlankLines_reads : skipBlankLines.Reads [] fun _ => [] := by
  intro s _ t ht hnone
  cases ht
  exact ⟨hnone, [], s.spends_skipBlankLines, rfl⟩

theorem skipOptional_reads : (skipOptional .semicolon).Reads [] fun _ => [] := by
  intro s
  by_cases hx : s.currentIs .semicolon
  · have htoken := State.token_of_currentIs rfl hx
    exact readsAt_step htoken rfl (by unfold skipOptional; rw [if_pos hx])
  · intro _ t ht hnone
    unfold skipOptional at ht
    rw [if_neg hx] at ht
    cases ht
    exact ⟨hnone, [], State.Spends.refl s, rfl⟩

theorem expect_reads {x : Token} (hx : x.isFixed = true) :
    (expect x).Reads [] fun _ => x.kept := by
  intro s
  by_cases hcur : s.currentIs x
  · have htoken := State.token_of_currentIs hx hcur
    unfold Token.isFixed at hx
    rw [Bool.and_eq_true] at hx
    exact readsAt_step htoken hx.1 (by unfold expect; rw [if_pos hcur])
  · intro _ t ht
    unfold expect at ht
    rw [if_neg hcur] at ht
    cases ht

/-! ### Lists -/

/-- Further items, each behind its comma. -/
def moreTokens (tokens : α → List Token) (items : List α) : List Token :=
  items.flatMap fun a => .comma :: tokens a

theorem commaWords_map_cons (tokens : α → List Token) (a : α) (items : List α) :
    commaWords ((a :: items).map tokens) = tokens a ++ moreTokens tokens items := by
  rw [List.map_cons, commaWords_cons, moreTokens, List.flatMap_map]
  rfl

theorem moreItems_reads {item : Rule α} (hi : item.Reads [] tokens) (b : Nat) :
    (moreItems item b).Reads [] (moreTokens tokens) := by
  induction b with
  | zero => exact reads_starve
  | succ b ih =>
    unfold moreItems
    refine skipBlankLines_reads.bind fun _ => reads_look_bind fun s => ?_
    split
    · next hcomma =>
      refine readsAt_take_bind hcomma rfl ?_
      refine skipBlankLines_reads.bind fun _ => hi.bind fun first => ih.bind fun others => ?_
      exact reads_pure (by simp [moreTokens, Token.kept_eq, Token.isKept])
    · exact reads_pure (by simp [moreTokens]) s

/-- Items with commas between them, and the closing token if it is one that is kept. -/
theorem listOf_reads {item : Rule α} (hi : item.Reads [] tokens) {close : Token}
    (hclose : close.isFixed = true) (b : Nat) :
    (listOf close item b).Reads [] fun p =>
      commaWords (p.1.map tokens) ++ close.kept := by
  unfold listOf
  refine skipBlankLines_reads.bind fun _ => reads_look_bind fun s => ?_
  split
  · refine ((expect_reads hclose).bind fun last => ?_) s
    exact reads_pure rfl
  · refine (hi.bind fun first => (moreItems_reads hi b).bind fun others => ?_) s
    refine (expect_reads hclose).bind fun last => reads_pure ?_
    rw [commaWords_map_cons]
    simp

end Rule

/-! ## The rules of the language -/

namespace Grammar

open Rule

section Parts

variable {expr : ExprRule} {block : Rule Block} {s : State}

/-- The token of a name. -/
abbrev nameTokens (n : Ident) : List Token := [.ident n.name]

theorem name_reads : name.Reads [] nameTokens := by
  refine reads_look_bind fun s => ?_
  split
  · next text htext => exact readsAt_take_bind htext rfl (reads_pure rfl)
  · exact reads_fail _ _ s

theorem integer_reads {text : String} (hx : s.current.token = .int text) :
    integer.ReadsAt s [] Expr.tokens := by
  refine readsAt_take_bind hx rfl ?_
  rw [hx]
  split
  · exact reads_pure rfl
  · exact reads_fail _ _

theorem float_reads {text : String} (hx : s.current.token = .float text) :
    float.ReadsAt s [] Expr.tokens := by
  refine readsAt_take_bind hx rfl ?_
  rw [hx]
  split
  · exact reads_pure rfl
  · exact reads_fail _ _

theorem boolean_reads (value : Bool)
    (hx : s.current.token = if value then .kwTrue else .kwFalse) :
    boolean.ReadsAt s [] Expr.tokens := by
  refine readsAt_take_bind hx (by cases value <;> rfl) (reads_pure ?_)
  rw [hx]
  cases value <;> rfl

theorem string_reads {value : String} (hx : s.current.token = .str value) :
    string.ReadsAt s [] Expr.tokens := by
  refine readsAt_take_bind hx rfl (reads_pure ?_)
  rw [hx]
  rfl

variable (he : ∀ l, (expr l).Reads [] Expr.tokens) (hb : block.Reads [] Block.tokens)

include he

theorem array_reads (b : Nat) : (array expr b).Reads [] Expr.tokens := by
  unfold array
  refine (expect_reads rfl).bind fun opening => (listOf_reads (he _) rfl b).bind fun p => ?_
  exact reads_pure (by simp [Expr.tokens, Expr.tokensList_eq, Token.kept_eq, Token.isKept])

theorem entry_reads : (entry expr).Reads [] Entry.tokens := by
  unfold entry
  refine (he _).bind fun key => skipBlankLines_reads.bind fun _ => ?_
  refine (expect_reads rfl).bind fun _ => (he _).bind fun value => ?_
  exact reads_pure (by simp [Entry.tokens, Token.kept_eq, Token.isKept])

theorem hash_reads (b : Nat) : (hash expr b).Reads [] Expr.tokens := by
  unfold hash
  refine (expect_reads rfl).bind fun opening =>
    (listOf_reads (entry_reads he) rfl b).bind fun p => ?_
  exact reads_pure (by simp [Expr.tokens, Entry.tokensList_eq, Token.kept_eq, Token.isKept])

theorem unary_reads (op : UnaryOp) (hx : s.current.token = op.token) :
    (unary expr).ReadsAt s [] Expr.tokens := by
  have hop : op.token.unaryOp? = some op := by cases op <;> rfl
  refine readsAt_take_bind hx (by cases op <;> rfl) ?_
  rw [hx, hop]
  refine (he _).bind fun operand => reads_pure ?_
  cases op <;> rfl

/-- Parentheses leave no trace. -/
theorem group_reads (hx : s.current.token = .leftParen) :
    (group expr).ReadsAt s [] Expr.tokens := by
  refine readsAt_take_bind hx rfl ((he _).bind fun inner => ?_)
  refine skipBlankLines_reads.bind fun _ => (expect_reads rfl).bind fun _ => ?_
  exact reads_pure (by simp [Token.kept_eq, Token.isKept])

include hb

theorem cond_reads : (cond expr block).Reads [] Expr.tokens := by
  unfold cond
  refine (expect_reads rfl).bind fun opening => (he _).bind fun condition => ?_
  refine hb.bind fun consequence => reads_look_bind fun s => ?_
  split
  · next helse =>
    refine readsAt_take_bind helse rfl (hb.bind fun alternative => ?_)
    exact reads_pure (by simp [Expr.tokens, Block.tokensElse, Token.kept_eq, Token.isKept])
  · exact reads_pure (by simp [Expr.tokens, Block.tokensElse, Token.kept_eq, Token.isKept]) s

theorem loop_reads : (loop expr block).Reads [] Expr.tokens := by
  unfold loop
  refine (expect_reads rfl).bind fun opening => (he _).bind fun condition => ?_
  exact hb.bind fun body => reads_pure (by simp [Expr.tokens, Token.kept_eq, Token.isKept])

omit he in
theorem func_reads (b : Nat) : (func block b).Reads [] Expr.tokens := by
  unfold func
  refine (expect_reads rfl).bind fun opening => (expect_reads rfl).bind fun _ => ?_
  refine (listOf_reads name_reads rfl b).bind fun p => hb.bind fun body => ?_
  exact reads_pure (by simp [Expr.tokens, Token.kept_eq, Token.isKept])

theorem operand_reads (b : Nat) : (operand expr block b).Reads [] Expr.tokens := by
  refine reads_look_bind fun s => ?_
  split
  case h_1 =>
    refine (name_reads.bind fun n => ?_) s
    exact reads_pure (a := Expr.ident n) rfl
  case h_2 hx => exact integer_reads hx
  case h_3 hx => exact float_reads hx
  case h_4 hx => exact boolean_reads true hx
  case h_5 hx => exact boolean_reads false hx
  case h_6 hx => exact string_reads hx
  case h_7 hx => exact unary_reads he .not hx
  case h_8 hx => exact unary_reads he .neg hx
  case h_9 => exact array_reads he b s
  case h_10 => exact hash_reads he b s
  case h_11 => exact cond_reads he hb s
  case h_12 => exact loop_reads he hb s
  case h_13 => exact func_reads hb b s
  case h_14 hx => exact group_reads he hx
  case h_15 => exact reads_fail _ _ s

omit hb

/-- The token in front makes the expression before it the left part of a longer one. -/
theorem continuation_reads (b : Nat) (left : Expr)
    (hx : Precedence.lowest.rank < s.current.token.precedence.rank) :
    (continuation expr b left).ReadsAt s left.tokens Expr.tokens := by
  refine readsAt_look_bind ?_
  split
  · unfold call
    refine ((expect_reads rfl).bind fun _ => ?_) s
    refine (listOf_reads (he _) rfl b).bind fun p => reads_pure ?_
    simp [Expr.tokens, Expr.tokensList_eq, Token.kept_eq, Token.isKept]
  · unfold index
    refine ((expect_reads rfl).bind fun _ => (he _).bind fun position => ?_) s
    refine skipBlankLines_reads.bind fun _ => (expect_reads rfl).bind fun closing => ?_
    exact reads_pure (by simp [Expr.tokens, Token.kept_eq, Token.isKept])
  · next hparen hbracket =>
    obtain ⟨op, hop⟩ : ∃ op, s.current.token = .operator op := by
      cases hcur : s.current.token <;> simp_all [Token.precedence]
    refine readsAt_take_bind hop rfl ?_
    rw [hop]
    exact (he _).bind fun right => reads_pure (by simp [Expr.tokens, Token.kept_eq, Token.isKept])

include hb

theorem statement_reads : (statement expr block).Reads [] Stmt.tokens := by
  refine reads_look_bind fun s => ?_
  split
  · next hx => exact readsAt_take_bind hx rfl (reads_pure rfl)
  · unfold letStatement
    refine ((expect_reads rfl).bind fun opening => name_reads.bind fun bound => ?_) s
    refine (expect_reads rfl).bind fun _ => (he _).bind fun value => ?_
    refine skipOptional_reads.bind fun _ => reads_pure ?_
    simp [Stmt.tokens, Token.kept_eq, Token.isKept]
  · unfold returnStatement
    refine ((expect_reads rfl).bind fun opening => (he _).bind fun value => ?_) s
    refine skipOptional_reads.bind fun _ => reads_pure ?_
    simp [Stmt.tokens, Token.kept_eq, Token.isKept]
  · refine (hb.bind fun body => ?_) s
    exact reads_pure (a := Stmt.block body) rfl
  · unfold expressionStatement
    refine ((he _).bind fun value => skipOptional_reads.bind fun _ => ?_) s
    exact reads_pure (by simp [Stmt.tokens])

end Parts

/-! ### The recursive rules -/

/-- The rules with budget `b` keep the tokens they spend. -/
structure RulesRead (b : Nat) : Prop where
  expression : ∀ level, (expression b level).Reads [] Expr.tokens
  operators : ∀ level left, (operators b level left).Reads (Expr.tokens left) Expr.tokens
  block : (block b).Reads [] Block.tokens
  statements : ∀ inBlock, (statements b inBlock).Reads [] Stmt.tokensList

theorem operators_succ_read {b : Nat} (h : RulesRead b) (level : Precedence) (left : Expr) :
    (operators (b + 1) level left).Reads left.tokens Expr.tokens := by
  unfold operators
  refine reads_look_bind fun s => ?_
  split
  · next hrank =>
    have hbinds : Precedence.lowest.rank < s.current.token.precedence.rank :=
      Nat.lt_of_le_of_lt (Nat.zero_le _) hrank
    exact ReadsAt.andThen (continuation_reads h.expression b left hbinds) fun wider =>
      h.operators level wider
  · exact reads_pure rfl s

theorem statements_succ_read {b : Nat} (h : RulesRead b) (inBlock : Bool) :
    (statements (b + 1) inBlock).Reads [] Stmt.tokensList := by
  intro s ss u hu hnone
  unfold statements at hu
  split at hu
  · have hnil : (pure [] : Rule (List Stmt)).Reads [] Stmt.tokensList := reads_pure rfl
    exact hnil s ss u hu hnone
  split at hu
  · next hsemi =>
    have hstep : ReadsAt s [] (fun _ => []) take := readsAt_step hsemi rfl rfl
    exact hstep.bind (f := fun _ => statements b inBlock) (fun _ => h.statements inBlock) ss u hu
      hnone
  · cases hst : statement (expression b) (Grammar.block b) s with
    | ok first t =>
      rw [hst] at hu
      have hall : ReadsAt s [] Stmt.tokensList (do
          let first ← statement (expression b) (Grammar.block b)
          return first :: (← statements b inBlock)) := by
        refine ReadsAt.bind (statement_reads h.expression h.block s) fun first => ?_
        exact (h.statements inBlock).bind fun others => reads_pure rfl
      refine hall ss u ?_ hnone
      rw [bind_ok hst]
      exact hu
    | error e t =>
      -- a fault that is noted stays noted
      rw [hst] at hu
      have hnil := (h.statements inBlock _ ss u hu hnone).1
      have hmem : e ∈ ((t.note e).recover inBlock).errors :=
        List.mem_append_right t.errors List.mem_cons_self
      rw [hnil] at hmem
      cases hmem
    | starved =>
      rw [hst] at hu
      cases hu

theorem rules_read (b : Nat) : RulesRead b := by
  induction b with
  | zero =>
    exact ⟨fun _ => reads_starve, fun _ _ => reads_starve, reads_starve, fun _ => reads_starve⟩
  | succ b ih =>
    refine ⟨fun level => ?_, operators_succ_read ih, ?_, statements_succ_read ih⟩
    · unfold expression
      refine skipBlankLines_reads.bind fun _ => ?_
      exact (operand_reads ih.expression ih.block b).bind fun left => ih.operators level left
    · unfold block
      refine (expect_reads rfl).bind fun opening => (ih.statements true).bind fun body => ?_
      refine (expect_reads rfl).bind fun closing => reads_pure ?_
      simp [Block.tokens, Token.kept_eq, Token.isKept]

end Grammar

/-! ## Whole texts -/

theorem State.current_of_head? {t : State} {z : Lexeme} (hz : z ∈ t.rest.head?) : t.current = z := by
  unfold current
  rw [hz]
  rfl

/-- Outside of blocks statements end where the text does. -/
theorem State.head_eof_of_endsStatements {t : State}
    (h : Grammar.endsStatements false t.current.token = true) :
    ∀ z ∈ t.rest.head?, z.token = .eof := by
  intro z hz
  rw [State.current_of_head? hz] at h
  cases hz : z.token <;> simp [hz, Grammar.endsStatements] at h ⊢

/-- The lexemes in front of the first end of a text. -/
theorem eq_of_ends {xs ys zs : List Lexeme} {last : Lexeme} (hxs : ∀ x ∈ xs, x.token ≠ .eof)
    (hlast : last.token = .eof) (hys : ∀ y ∈ ys, y.token ≠ .eof)
    (hzs : ∀ z ∈ zs.head?, z.token = .eof) (h : xs ++ [last] = ys ++ zs) : xs = ys := by
  let inText : Lexeme → Bool := fun x => x.token ≠ .eof
  have hleft : zs.takeWhile inText = [] := by
    cases zs with
    | nil => rfl
    | cons z zs => simp [inText, hzs z rfl]
  calc xs
      = (xs ++ [last]).takeWhile inText := by
        rw [List.takeWhile_append_of_pos (by simpa [inText] using hxs)]
        simp [inText, hlast]
    _ = (ys ++ zs).takeWhile inText := congrArg (List.takeWhile inText) h
    _ = ys := by
        rw [List.takeWhile_append_of_pos (by simpa [inText] using hys), hleft, List.append_nil]

/-- What is read without a fault is read up to the end of the text. -/
theorem parseLexemes_tokens {xs : List Lexeme} {last : Lexeme} (hxs : ∀ x ∈ xs, x.token ≠ .eof)
    (hlast : last.token = .eof) (h : (parseLexemes (xs ++ [last])).errors = []) :
    (parseLexemes (xs ++ [last])).program.tokens = keptTokens xs ∧
      ∀ x ∈ xs, x.token.isWord = true := by
  obtain ⟨ss, t, hread, hends⟩ := Grammar.readStatements_ok false (.ofLexemes (xs ++ [last]))
  rw [Grammar.parseLexemes_eq hread] at h ⊢
  obtain ⟨-, ts, ⟨ys, hrest, hword, hkept⟩, htokens⟩ :=
    (Grammar.rules_read _).statements false _ ss t hread h
  have hne : ∀ y ∈ ys, y.token ≠ .eof := fun y hy => Token.ne_eof_of_isWord (hword y hy)
  have hys : xs = ys := eq_of_ends hxs hlast hne (State.head_eof_of_endsStatements hends) hrest
  subst hys
  exact ⟨by rw [Program.tokens, hkept, ← htokens, List.nil_append], hword⟩

/-- A program that is read without a fault has the tokens of its source, one by one, without
    parentheses, semicolons and blank lines; there is no character among them that starts no word. -/
theorem parse_tokens (source : String) (h : (parse source).errors = []) :
    ∃ xs last, tokenize source = xs ++ [last] ∧ last.token = .eof ∧
      (parse source).program.tokens = keptTokens xs ∧
      ∀ x ∈ xs, ∀ text, x.token ≠ .illegal text := by
  obtain ⟨xs, last, hsource, hlast, hne⟩ := (Lexer.ofChars source.toList).lexemes_end
  have hsource : tokenize source = xs ++ [last] := hsource
  unfold parse at h ⊢
  rw [hsource] at h ⊢
  obtain ⟨htokens, hword⟩ := parseLexemes_tokens hne hlast h
  refine ⟨xs, last, rfl, hlast, htokens, fun x hx text hill => ?_⟩
  have hx := hword x hx
  rw [hill] at hx
  cases hx

/-- Parentheses and a semicolon inside, a blank line between the statements. -/
theorem parse_tokens_grouped :
    let source := "let f = fn(a, b) \x7b (a + -b); \x7d\n\nf(1, .5)[0]"
    (parse source).errors = [] ∧
      ∃ xs last, tokenize source = xs ++ [last] ∧ last.token = .eof ∧
        (parse source).program.tokens = keptTokens xs ∧
        ∀ x ∈ xs, ∀ text, x.token ≠ .illegal text := by
  intro source
  have hnone : (parse source).errors = [] := by decide +kernel
  exact ⟨hnone, parse_tokens source hnone⟩

end Scriptlet
