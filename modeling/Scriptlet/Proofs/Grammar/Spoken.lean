import Scriptlet.Proofs.Grammar.Written
import Scriptlet.Proofs.Syntax.Grouping
import Scriptlet.Proofs.Syntax.Words

/-!
# `Proofs.Grammar.Spoken` — the words of a tree are a way to write it

Lexemes that have the words of a tree as their tokens are written with this tree, up to places and to
the blank lines that the words leave out. The parentheses among the words are what makes every operand
one that its operator can be written with.

## Contents
- `WrittenAs`: all lexemes with the given tokens are written with a tree of the given normal form.
- `WrittenAs.wrap`, `separated_of_commaWords`, `statements_of_linesWords`: parentheses, lists, lines.
- `startsWithHash_of_words`: which expressions start with a brace.
- `Expr.words_written` and the like: the words of a tree.
-/

namespace Scriptlet

/-! ## Lexemes with given tokens -/

/-- Lexemes with these tokens belong to a tree of which `normal` leaves `a`. -/
def WrittenAs {α : Type} (P : α → List Lexeme → Prop) (normal : α → α) (a : α) (ts : List Token) :
    Prop :=
  ∀ xs : List Lexeme, xs.map Lexeme.token = ts → ∃ a', P a' xs ∧ normal a' = a

theorem WrittenAs.mono {α : Type} {P Q : α → List Lexeme → Prop} {normal : α → α} {a : α}
    {ts : List Token} (h : WrittenAs P normal a ts) (hPQ : ∀ a' xs, P a' xs → Q a' xs) :
    WrittenAs Q normal a ts := by
  intro xs hxs
  obtain ⟨a', hP, hnormal⟩ := h xs hxs
  exact ⟨a', hPQ a' xs hP, hnormal⟩

/-- An expression with a head and a tail. -/
abbrev WrittenExpr (head tail : Nat) (e : Expr) (ts : List Token) : Prop :=
  WrittenAs (fun e' => Written (.expr head tail e')) Expr.normal e ts

/-- An expression whatever its head and its tail are. -/
abbrev WrittenItem (e : Expr) (ts : List Token) : Prop :=
  WrittenAs (fun e' => Written (.item e')) Expr.normal e ts

abbrev WrittenEntry (p : Entry) (ts : List Token) : Prop :=
  WrittenAs (fun p' => Written (.entry p')) Entry.normal p ts

abbrev WrittenBlock (b : Block) (ts : List Token) : Prop :=
  WrittenAs (fun b' => Written (.block b')) Block.normal b ts

/-- A statement that a semicolon may end. -/
abbrev WrittenSimple (s : Stmt) (ts : List Token) : Prop :=
  WrittenAs (fun s' => Written (.simple s')) Stmt.normal s ts

/-- A statement with a semicolon behind it. -/
abbrev WrittenLine (s : Stmt) (ts : List Token) : Prop :=
  WrittenAs (fun s' xs => ∀ (z : Lexeme) (zs : List Lexeme) (ss : List Stmt), z.token = .semicolon →
    Written (.statements ss) zs → Written (.statements (s' :: ss)) (xs ++ z :: zs)) Stmt.normal s ts

section Split

variable {xs : List Lexeme} {t : Token} {ts us : List Token}

theorem split_append (h : xs.map Lexeme.token = ts ++ us) :
    ∃ ys zs, xs = ys ++ zs ∧ ys.map Lexeme.token = ts ∧ zs.map Lexeme.token = us := by
  obtain ⟨ys, zs, hxs, hys, hzs⟩ := List.map_eq_append_iff.mp h
  exact ⟨ys, zs, hxs, hys, hzs⟩

theorem split_singleton (h : xs.map Lexeme.token = [t]) : ∃ x, xs = [x] ∧ x.token = t := by
  obtain ⟨x, hxs, hx⟩ := List.map_eq_singleton_iff.mp h
  exact ⟨x, hxs, hx⟩

theorem split_cons (h : xs.map Lexeme.token = [t] ++ us) :
    ∃ x ys, xs = x :: ys ∧ x.token = t ∧ ys.map Lexeme.token = us := by
  obtain ⟨x, ys, hxs, hx, hys⟩ := List.map_eq_cons_iff.mp h
  exact ⟨x, ys, hxs, hx, hys⟩

/-- Tokens with one before them and one behind them. -/
theorem split_between {u : Token} (h : xs.map Lexeme.token = [t] ++ ts ++ [u]) :
    ∃ x ys z, xs = x :: (ys ++ [z]) ∧ x.token = t ∧ ys.map Lexeme.token = ts ∧ z.token = u := by
  rw [List.append_assoc] at h
  obtain ⟨x, ys, rfl, hx, h⟩ := split_cons h
  obtain ⟨ys, zs, rfl, hys, h⟩ := split_append h
  obtain ⟨z, rfl, hz⟩ := split_singleton h
  exact ⟨x, ys, z, rfl, hx, hys, hz⟩

end Split

/-! ## Parentheses -/

section Parens

variable {e : Expr} {ts : List Token}

theorem WrittenAs.item {head tail : Nat} (h : WrittenExpr head tail e ts) (hhead : 0 < head) :
    WrittenItem e ts :=
  h.mono fun _ _ he => .item he hhead

/-- An expression in parentheses is closed. -/
theorem WrittenAs.group (h : WrittenItem e ts) : WrittenExpr tight tight e (wrapWords true ts) := by
  intro xs hxs
  obtain ⟨x, ys, z, rfl, hx, hys, hz⟩ := split_between hxs
  obtain ⟨e', hwritten, hnormal⟩ := h ys hys
  refine ⟨e', ?_, hnormal⟩
  have hwhole : Written (.whole e') ([] ++ ys) := .whole blanks_nil hwritten
  have hgroup := Written.group hx hwhole blanks_nil hz
  rwa [List.nil_append, List.nil_append] at hgroup

theorem tight_pos : 0 < tight := Nat.succ_pos 13

/-- In parentheses an expression is closed, whatever its head and its tail are. -/
theorem WrittenAs.closed {head tail : Nat} (h : WrittenExpr head tail e ts) (hhead : 0 < head) :
    WrittenExpr tight tight e (wrapWords true ts) :=
  (h.item hhead).group

/-- The head and the tail that an expression has with its parentheses, if they are wanted. -/
theorem WrittenAs.wrap {head tail : Nat} (h : WrittenExpr head tail e ts) (hhead : 0 < head)
    (wanted : Bool) :
    WrittenExpr (if wanted then tight else head) (if wanted then tight else tail) e
      (wrapWords wanted ts) := by
  cases wanted with
  | false => exact h
  | true => exact h.closed hhead

/-- What is called or indexed is closed. -/
theorem WrittenAs.wrap_operation (h : WrittenExpr e.head e.tail e.normal ts) :
    WrittenExpr tight tight e.normal (wrapWords (isOperation e) ts) := by
  have hwrap := h.wrap e.head_pos (isOperation e)
  cases e with
  | binary | unary => exact hwrap
  | ident | int | float | bool | str | array | hash | cond | loop | func | call | index =>
    exact hwrap

end Parens

/-! ## Lists -/

theorem commaWords_cons (ts : List Token) (tss : List (List Token)) :
    commaWords (ts :: tss) = ts ++ tss.flatMap fun us => [.comma] ++ us :=
  intercalate_cons [Token.comma] ts tss

section Lists

variable {α β : Type} {P : α → List Lexeme → Prop} {normal : α → α} {f : β → α}
  {words : β → List Token}

theorem more_of_flatMap {as : List β} (h : ∀ a ∈ as, WrittenAs P normal (f a) (words a))
    {xs : List Lexeme}
    (hxs : xs.map Lexeme.token = (as.map words).flatMap fun us => [.comma] ++ us) :
    ∃ items : List (α × List Lexeme), (∀ i ∈ items, P i.1 i.2) ∧ More (items.map Prod.snd) xs ∧
      (items.map Prod.fst).map normal = as.map f := by
  induction as generalizing xs with
  | nil =>
    rw [List.map_eq_nil_iff.mp hxs]
    exact ⟨[], fun _ hi => absurd hi List.not_mem_nil, .nil blanks_nil, rfl⟩
  | cons a as ih =>
    rw [List.map_cons, List.flatMap_cons, List.append_assoc] at hxs
    obtain ⟨c, xs, rfl, hc, hxs⟩ := split_cons hxs
    obtain ⟨ys, zs, rfl, hys, hzs⟩ := split_append hxs
    obtain ⟨a', ha, hnormal⟩ := h a List.mem_cons_self ys hys
    obtain ⟨items, hitems, hmore, hmap⟩ := ih (fun b hb => h b (List.mem_cons_of_mem a hb)) hzs
    refine ⟨(a', ys) :: items, List.forall_mem_cons.mpr ⟨ha, hitems⟩, ?_, ?_⟩
    · exact .cons blanks_nil hc blanks_nil hmore
    · rw [List.map_cons, List.map_cons, List.map_cons, hmap, hnormal]

/-- Pieces with commas between them. -/
theorem separated_of_commaWords {as : List β} (h : ∀ a ∈ as, WrittenAs P normal (f a) (words a))
    {xs : List Lexeme} (hxs : xs.map Lexeme.token = commaWords (as.map words)) :
    ∃ items : List (α × List Lexeme), (∀ i ∈ items, P i.1 i.2) ∧
      Separated (items.map Prod.snd) xs ∧ (items.map Prod.fst).map normal = as.map f := by
  cases as with
  | nil =>
    rw [List.map_eq_nil_iff.mp hxs]
    exact ⟨[], fun _ hi => absurd hi List.not_mem_nil, .nil blanks_nil, rfl⟩
  | cons a as =>
    rw [List.map_cons, commaWords_cons] at hxs
    obtain ⟨ys, zs, rfl, hys, hzs⟩ := split_append hxs
    obtain ⟨a', ha, hnormal⟩ := h a List.mem_cons_self ys hys
    obtain ⟨items, hitems, hmore, hmap⟩ :=
      more_of_flatMap (fun b hb => h b (List.mem_cons_of_mem a hb)) hzs
    refine ⟨(a', ys) :: items, List.forall_mem_cons.mpr ⟨ha, hitems⟩, ?_, ?_⟩
    · exact .cons blanks_nil hmore
    · rw [List.map_cons, List.map_cons, List.map_cons, hmap, hnormal]

end Lists

/-! ## Expressions -/

section Expressions

variable {e l r : Expr} {b : Block} {ts us vs : List Token}

/-- A single lexeme that is the expression. -/
theorem written_leaf {t : Token}
    (h : ∀ x : Lexeme, x.token = t → ∃ e', x.leaf? = some e' ∧ e'.normal = e) :
    WrittenExpr tight tight e [t] := by
  intro xs hxs
  obtain ⟨x, rfl, hx⟩ := split_singleton hxs
  obtain ⟨e', hleaf, hnormal⟩ := h x hx
  exact ⟨e', .leaf hleaf, hnormal⟩

theorem written_ident (name : Ident) :
    WrittenExpr tight tight (.ident name.normal) [.ident name.name] :=
  written_leaf fun x hx => ⟨.ident ⟨name.name, x.span⟩, by unfold Lexeme.leaf?; rw [hx], rfl⟩

theorem written_int {value : Int64} {spelling : String}
    (h : Numeral.readInteger spelling = some value) :
    WrittenExpr tight tight (.int value spelling .none) [.int spelling] :=
  written_leaf fun x hx => ⟨.int value spelling x.span, by unfold Lexeme.leaf?; rw [hx]; simp [h], rfl⟩

theorem written_float {value : Float} {spelling : String}
    (h : Numeral.readFloat spelling = some value) :
    WrittenExpr tight tight (.float value spelling .none) [.float spelling] :=
  written_leaf fun x hx =>
    ⟨.float value spelling x.span, by unfold Lexeme.leaf?; rw [hx]; simp [h], rfl⟩

theorem written_bool (value : Bool) :
    WrittenExpr tight tight (.bool value .none) [if value then .kwTrue else .kwFalse] :=
  written_leaf fun x hx =>
    ⟨.bool value x.span, by unfold Lexeme.leaf?; rw [hx]; cases value <;> rfl, rfl⟩

theorem written_str (value : String) :
    WrittenExpr tight tight (.str value .none) [.str value] :=
  written_leaf fun x hx => ⟨.str value x.span, by unfold Lexeme.leaf?; rw [hx], rfl⟩

theorem written_array {α : Type} {as : List α} {f : α → Expr} {words : α → List Token}
    (h : ∀ a ∈ as, WrittenItem (f a) (words a)) :
    WrittenExpr tight tight (.array (as.map f) .none)
      ([.leftBracket] ++ commaWords (as.map words) ++ [.rightBracket]) := by
  intro xs hxs
  obtain ⟨x, ys, z, rfl, hx, hys, hz⟩ := split_between hxs
  obtain ⟨items, hitems, hsep, hmap⟩ := separated_of_commaWords h hys
  refine ⟨_, .array hx hitems hsep hz, ?_⟩
  unfold Expr.normal
  rw [Expr.normalList_eq, hmap]

theorem written_hash {α : Type} {as : List α} {f : α → Entry} {words : α → List Token}
    (h : ∀ a ∈ as, WrittenEntry (f a) (words a)) :
    WrittenExpr tight tight (.hash (as.map f) .none)
      ([.leftBrace] ++ commaWords (as.map words) ++ [.rightBrace]) := by
  intro xs hxs
  obtain ⟨x, ys, z, rfl, hx, hys, hz⟩ := split_between hxs
  obtain ⟨items, hitems, hsep, hmap⟩ := separated_of_commaWords h hys
  refine ⟨_, .hash hx hitems hsep hz, ?_⟩
  unfold Expr.normal
  rw [Entry.normalList_eq, hmap]

theorem written_unary (op : UnaryOp) {head tail : Nat} (h : WrittenExpr head tail e ts)
    (hhead : Precedence.unary.rank < head) (htail : Precedence.unary.rank ≤ tail) :
    WrittenExpr tight Precedence.unary.rank (.unary op e .none) ([op.token] ++ ts) := by
  intro xs hxs
  obtain ⟨x, ys, rfl, hx, hys⟩ := split_cons hxs
  obtain ⟨e', hwritten, hnormal⟩ := h ys hys
  have hop : x.token.unaryOp? = some op := by
    rw [hx]
    cases op <;> rfl
  refine ⟨_, .unary hop blanks_nil hwritten hhead htail, ?_⟩
  unfold Expr.normal
  rw [hnormal]

theorem written_binary (op : BinaryOp) {head tail head' tail' : Nat} (hl : WrittenExpr head tail l ts)
    (hr : WrittenExpr head' tail' r us) (hleft : op.precedence.rank ≤ head ∧ op.precedence.rank ≤ tail)
    (hright : op.rightPrecedence.rank < head' ∧ op.rightPrecedence.rank ≤ tail') :
    WrittenExpr op.precedence.rank op.rightPrecedence.rank (.binary l op r .none)
      (ts ++ [.operator op] ++ us) := by
  intro xs hxs
  rw [List.append_assoc] at hxs
  obtain ⟨xs, ys, rfl, hts, hys⟩ := split_append hxs
  obtain ⟨x, ys, rfl, hx, hus⟩ := split_cons hys
  obtain ⟨l', hl', hnormal⟩ := hl xs hts
  obtain ⟨r', hr', hnormal'⟩ := hr ys hus
  refine ⟨_, .binary hl' hleft.1 hleft.2 hx blanks_nil hr' hright.1 (Nat.le_refl _) hright.2, ?_⟩
  unfold Expr.normal
  rw [hnormal, hnormal']

theorem written_entry {key value : Expr} (hk : WrittenItem key ts) (hv : WrittenItem value us) :
    WrittenEntry ⟨key, value⟩ (ts ++ [.colon] ++ us) := by
  intro xs hxs
  rw [List.append_assoc] at hxs
  obtain ⟨xs, ys, rfl, hts, hys⟩ := split_append hxs
  obtain ⟨c, ys, rfl, hc, hus⟩ := split_cons hys
  obtain ⟨key', hkey, hnormal⟩ := hk xs hts
  obtain ⟨value', hvalue, hnormal'⟩ := hv ys hus
  have hwhole : Written (.whole value') ([] ++ ys) := .whole blanks_nil hvalue
  refine ⟨⟨key', value'⟩, .entry hkey blanks_nil hc hwhole, ?_⟩
  unfold Entry.normal
  rw [hnormal, hnormal']

/-- A keyword, a condition and a block, and perhaps more. -/
theorem split_keyword {t : Token} (hc : WrittenItem e ts) (hb : WrittenBlock b us) {xs : List Lexeme}
    (hxs : xs.map Lexeme.token = [t] ++ ts ++ us ++ vs) :
    ∃ x ys zs ws e' b', xs = x :: (ys ++ zs) ++ ws ∧ x.token = t ∧ Written (.whole e') ys ∧
      e'.normal = e ∧ Written (.block b') zs ∧ b'.normal = b ∧ ws.map Lexeme.token = vs := by
  rw [List.append_assoc [t]] at hxs
  obtain ⟨xs, ws, rfl, hxs, hws⟩ := split_append hxs
  obtain ⟨x, xs, rfl, hx, hxs⟩ := split_cons hxs
  obtain ⟨ys, zs, rfl, hys, hzs⟩ := split_append hxs
  obtain ⟨e', he', hnormal⟩ := hc ys hys
  obtain ⟨b', hb', hnormal'⟩ := hb zs hzs
  have hwhole : Written (.whole e') ([] ++ ys) := .whole blanks_nil he'
  exact ⟨x, ys, zs, ws, e', b', rfl, hx, hwhole, hnormal, hb', hnormal', hws⟩

theorem written_cond (hc : WrittenItem e ts) (hb : WrittenBlock b us) :
    WrittenExpr tight tight (.cond e b none .none) ([.kwIf] ++ ts ++ us) := by
  intro xs hxs
  rw [← List.append_nil (_ ++ us)] at hxs
  obtain ⟨x, ys, zs, ws, e', b', rfl, hx, he', hnormal, hb', hnormal', hws⟩ :=
    split_keyword hc hb hxs
  rw [List.map_eq_nil_iff.mp hws, List.append_nil]
  refine ⟨_, .cond hx he' hb', ?_⟩
  unfold Expr.normal
  rw [hnormal, hnormal']
  rfl

theorem written_condElse {body : Block} (hc : WrittenItem e ts) (hb : WrittenBlock b us)
    (ha : WrittenBlock body vs) :
    WrittenExpr tight tight (.cond e b (some body) .none)
      ([.kwIf] ++ ts ++ us ++ ([.kwElse] ++ vs)) := by
  intro xs hxs
  obtain ⟨x, ys, zs, ws, e', b', rfl, hx, he', hnormal, hb', hnormal', hws⟩ :=
    split_keyword hc hb hxs
  obtain ⟨y, ws, rfl, hy, hws⟩ := split_cons hws
  obtain ⟨body', hbody', hnormal''⟩ := ha ws hws
  refine ⟨.cond e' b' (some body') ⟨x.start, body'.span.stop⟩, ?_, ?_⟩
  · rw [List.cons_append, List.append_assoc]
    exact .condElse hx he' hb' hy hbody'
  · unfold Expr.normal Block.normalOption
    rw [hnormal, hnormal', hnormal'']

theorem written_loop (hc : WrittenItem e ts) (hb : WrittenBlock b us) :
    WrittenExpr tight tight (.loop e b .none) ([.kwWhile] ++ ts ++ us) := by
  intro xs hxs
  rw [← List.append_nil (_ ++ us)] at hxs
  obtain ⟨x, ys, zs, ws, e', b', rfl, hx, he', hnormal, hb', hnormal', hws⟩ :=
    split_keyword hc hb hxs
  rw [List.map_eq_nil_iff.mp hws, List.append_nil]
  refine ⟨_, .loop hx he' hb', ?_⟩
  unfold Expr.normal
  rw [hnormal, hnormal']

theorem written_func {parameters : List Ident} (hb : WrittenBlock b us) :
    WrittenExpr tight tight (.func (parameters.map Ident.normal) b .none)
      ([.kwFn, .leftParen] ++ commaWords (parameters.map fun p => [.ident p.name]) ++ [.rightParen]
        ++ us) := by
  intro xs hxs
  have hname : ∀ p ∈ parameters, WrittenAs (fun p' ws => ∃ w : Lexeme, ws = [w] ∧ w.name? = some p')
      Ident.normal p.normal [.ident p.name] := by
    intro p _ ws hws
    obtain ⟨w, rfl, hw⟩ := split_singleton hws
    refine ⟨⟨p.name, w.span⟩, ⟨w, rfl, ?_⟩, rfl⟩
    unfold Lexeme.name?
    rw [hw]
  have hshape : xs.map Lexeme.token = [.kwFn] ++ (([.leftParen] ++
      commaWords (parameters.map fun p => [.ident p.name]) ++ [.rightParen]) ++ us) := hxs
  obtain ⟨x, xs, rfl, hx, hxs⟩ := split_cons hshape
  obtain ⟨ys, zs, rfl, hys, hzs⟩ := split_append hxs
  obtain ⟨y, ys, z, rfl, hy, hys, hz⟩ := split_between hys
  obtain ⟨names, hnames, hsep, hmap⟩ := separated_of_commaWords hname hys
  obtain ⟨b', hb', hnormal⟩ := hb zs hzs
  refine ⟨_, .func hx hy hnames hsep hz hb', ?_⟩
  unfold Expr.normal
  rw [hnormal, hmap]

theorem written_call {α : Type} {as : List α} {f : α → Expr} {words : α → List Token}
    (hf : WrittenExpr tight tight e ts) (h : ∀ a ∈ as, WrittenItem (f a) (words a)) :
    WrittenExpr tight tight (.call e (as.map f) .none)
      (ts ++ [.leftParen] ++ commaWords (as.map words) ++ [.rightParen]) := by
  intro xs hxs
  rw [List.append_assoc, List.append_assoc, ← List.append_assoc [Token.leftParen]] at hxs
  obtain ⟨xs, ys, rfl, hts, hys⟩ := split_append hxs
  obtain ⟨x, ys, z, rfl, hx, hys, hz⟩ := split_between hys
  obtain ⟨f', hf', hnormal⟩ := hf xs hts
  obtain ⟨items, hitems, hsep, hmap⟩ := separated_of_commaWords h hys
  refine ⟨_, .call hf' hx hitems hsep hz, ?_⟩
  unfold Expr.normal
  rw [Expr.normalList_eq, hmap, hnormal]

theorem written_index {i : Expr} (he : WrittenExpr tight tight e ts) (hi : WrittenItem i us) :
    WrittenExpr tight tight (.index e i .none) (ts ++ [.leftBracket] ++ us ++ [.rightBracket]) := by
  intro xs hxs
  rw [List.append_assoc, List.append_assoc, ← List.append_assoc [Token.leftBracket]] at hxs
  obtain ⟨xs, ys, rfl, hts, hys⟩ := split_append hxs
  obtain ⟨x, ys, z, rfl, hx, hys, hz⟩ := split_between hys
  obtain ⟨e', he', hnormal⟩ := he xs hts
  obtain ⟨i', hi', hnormal'⟩ := hi ys hys
  have hwhole : Written (.whole i') ([] ++ ys) := .whole blanks_nil hi'
  refine ⟨_, .index he' hx hwhole blanks_nil hz, ?_⟩
  unfold Expr.normal
  rw [hnormal, hnormal']

end Expressions

/-! ## Statements -/

/-- The first of the words of something that may stand in parentheses. -/
theorem head_wrapWords {wanted : Bool} {ts us : List Token}
    (h : (wrapWords wanted ts ++ us).head? = some .leftBrace) :
    ts.head? = some .leftBrace ∨ us.head? = some .leftBrace := by
  cases wanted with
  | true => exact absurd h (by simp [wrapWords])
  | false =>
    cases ts with
    | nil => exact Or.inr h
    | cons t ts => exact Or.inl h

/-- An expression whose words start with a brace starts with a hash. -/
theorem startsWithHash_of_words : ∀ e : Expr, e.words.head? = some .leftBrace →
    startsWithHash e = true
  | .ident _, h | .int .., h | .float .., h | .str .., h => absurd h (by simp [Expr.words])
  | .bool value _, h => by cases value <;> exact absurd h (by simp [Expr.words])
  | .array .., h | .cond .., h | .loop .., h | .func .., h => absurd h (by simp [Expr.words])
  | .unary op _ _, h => by cases op <;> exact absurd h (by simp [Expr.words, UnaryOp.token])
  | .hash .., _ => rfl
  | .binary left op right _, h => by
    unfold Expr.words at h
    rw [List.append_assoc] at h
    rcases head_wrapWords h with h | h
    · exact startsWithHash_of_words left h
    · exact absurd h (by simp)
  | .call callee _ _, h => by
    unfold Expr.words at h
    rw [List.append_assoc, List.append_assoc] at h
    rcases head_wrapWords h with h | h
    · exact startsWithHash_of_words callee h
    · exact absurd h (by simp)
  | .index target _ _, h => by
    unfold Expr.words at h
    rw [List.append_assoc, List.append_assoc] at h
    rcases head_wrapWords h with h | h
    · exact startsWithHash_of_words target h
    · exact absurd h (by simp)

section Statements

variable {e : Expr} {b : Block} {ts : List Token}

theorem WrittenAs.line {s : Stmt} (h : WrittenSimple s ts) : WrittenLine s ts :=
  h.mono fun _ _ hs _ _ _ hz hss => .ended hs hz hss

theorem written_bind {name : Ident} (h : WrittenItem e ts) :
    WrittenSimple (.bind name.normal e .none)
      ([.kwLet, .ident name.name, .operator .assign] ++ ts) := by
  intro xs hxs
  have hshape : xs.map Lexeme.token =
      [.kwLet] ++ ([.ident name.name] ++ ([.operator .assign] ++ ts)) := hxs
  obtain ⟨x, xs, rfl, hx, hxs⟩ := split_cons hshape
  obtain ⟨n, xs, rfl, hn, hxs⟩ := split_cons hxs
  obtain ⟨y, xs, rfl, hy, hxs⟩ := split_cons hxs
  obtain ⟨e', he', hnormal⟩ := h xs hxs
  have hwhole : Written (.whole e') ([] ++ xs) := .whole blanks_nil he'
  have hname : n.name? = some ⟨name.name, n.span⟩ := by
    unfold Lexeme.name?
    rw [hn]
  refine ⟨_, .bind hx hname hy hwhole, ?_⟩
  unfold Stmt.normal
  rw [hnormal]
  rfl

theorem written_ret (h : WrittenItem e ts) : WrittenSimple (.ret e .none) ([.kwReturn] ++ ts) := by
  intro xs hxs
  obtain ⟨x, xs, rfl, hx, hxs⟩ := split_cons hxs
  obtain ⟨e', he', hnormal⟩ := h xs hxs
  have hwhole : Written (.whole e') ([] ++ xs) := .whole blanks_nil he'
  refine ⟨_, .ret hx hwhole, ?_⟩
  unfold Stmt.normal
  rw [hnormal]

/-- An expression whose words do not start with a brace, which would open a block. -/
theorem written_exprStmt (h : WrittenItem e ts) (hts : ts.head? ≠ some .leftBrace) :
    WrittenSimple (.expr e) ts := by
  intro xs hxs
  obtain ⟨e', he', hnormal⟩ := h xs hxs
  obtain ⟨x, ys, rfl, -⟩ := he'.starts
  have hbrace : x.token ≠ .leftBrace := by
    intro hx
    rw [← hxs, List.map_cons, hx] at hts
    exact hts rfl
  refine ⟨.expr e', .exprStmt hbrace he', ?_⟩
  unfold Stmt.normal
  rw [hnormal]

/-- Where an expression would open a block, it stands in parentheses. -/
theorem written_expr {e : Expr} (h : WrittenExpr e.head e.tail e.normal e.words) :
    WrittenSimple (.expr e.normal) (wrapWords (startsWithHash e) e.words) := by
  have hitem : WrittenItem e.normal e.words := h.item e.head_pos
  cases hhash : startsWithHash e with
  | false =>
    refine written_exprStmt hitem fun hbrace => ?_
    rw [startsWithHash_of_words e hbrace] at hhash
    cases hhash
  | true => exact written_exprStmt ((h.closed e.head_pos).item tight_pos) (by simp [wrapWords])

/-- A block, whose semicolon is a statement that does nothing. -/
theorem written_blockStmt (h : WrittenBlock b ts) : WrittenLine (.block b) ts := by
  intro xs hxs
  obtain ⟨b', hb', hnormal⟩ := h xs hxs
  refine ⟨.block b', fun _ _ _ hz hss => .blockStmt hb' (.semicolon hz hss), ?_⟩
  unfold Stmt.normal
  rw [hnormal]

/-- Lines whose words are written with their statements. -/
theorem statements_of_linesWords {ss : List Stmt}
    (h : ∀ s ∈ ss, ∀ ts ∈ s.words?, WrittenLine s.normal ts) {xs : List Lexeme}
    (hxs : xs.map Lexeme.token = linesWords (ss.map Stmt.words?)) :
    ∃ ss', Written (.statements ss') xs ∧ ss'.map Stmt.normal = ss.map Stmt.normal := by
  induction ss generalizing xs with
  | nil =>
    rw [List.map_eq_nil_iff.mp hxs]
    exact ⟨[], .nil, rfl⟩
  | cons s ss ih =>
    have ih := @ih fun s' hs' => h s' (List.mem_cons_of_mem s hs')
    rw [List.map_cons] at hxs
    -- no words but those of a blank line are missing
    cases hs : s.words? with
    | none =>
      rw [hs] at hxs
      obtain ⟨x, xs, rfl, hx, hxs⟩ := split_cons hxs
      obtain ⟨ss', hss', hmap⟩ := ih hxs
      refine ⟨.blank x.span :: ss', .blank hx hss', ?_⟩
      have hblank : s.normal = .blank .none := by
        cases s with
        | blank => rfl
        | bind | ret | expr | block => cases hs
      rw [List.map_cons, List.map_cons, hmap, hblank]
      rfl
    | some ts =>
      rw [hs] at hxs
      have hshape : xs.map Lexeme.token = ts ++ ([.semicolon] ++ linesWords (ss.map Stmt.words?)) := by
        rw [← List.append_assoc]
        exact hxs
      obtain ⟨xs, ys, rfl, hts, hys⟩ := split_append hshape
      obtain ⟨z, zs, rfl, hz, hzs⟩ := split_cons hys
      obtain ⟨s', hline, hnormal⟩ := h s List.mem_cons_self ts hs xs hts
      obtain ⟨ss', hss', hmap⟩ := ih hzs
      refine ⟨s' :: ss', hline z zs ss' hz hss', ?_⟩
      rw [List.map_cons, List.map_cons, hmap, hnormal]

/-- The statements that are kept have the normal form of all. -/
theorem trimGaps_normalList {ss ss' : List Stmt}
    (h : ss'.map Stmt.normal = (trimGaps Stmt.isBlank ss).map Stmt.normal) :
    trimGaps Stmt.isBlank (Stmt.normalList ss') = trimGaps Stmt.isBlank (Stmt.normalList ss) := by
  rw [Stmt.normalList_eq, Stmt.normalList_eq, h, ← trimGaps_map Stmt.isBlank_normal,
    trimGaps_trimGaps]

theorem written_block {ss : List Stmt} {span : Span}
    (h : ∀ s ∈ ss, ∀ ts ∈ s.words?, WrittenLine s.normal ts) :
    WrittenBlock (Block.normal ⟨ss, span⟩) (Block.words ⟨ss, span⟩) := by
  intro xs hxs
  unfold Block.words at hxs
  rw [Stmt.trimGaps_wordsList] at hxs
  obtain ⟨x, ys, z, rfl, hx, hys, hz⟩ := split_between hxs
  obtain ⟨ss', hss', hmap⟩ :=
    statements_of_linesWords (fun s hs => h s (mem_of_mem_trimGaps hs)) hys
  refine ⟨_, .block hx hss' hz, ?_⟩
  unfold Block.normal
  rw [trimGaps_normalList hmap]

end Statements

/-! ## The words of a tree -/

/-- The operand of a unary operator: parentheses close what it could not stand in front of. -/
theorem WrittenAs.unary_operand {e : Expr} (op : UnaryOp) {ts : List Token}
    (h : WrittenExpr e.head e.tail e.normal ts) :
    WrittenExpr tight Precedence.unary.rank (.unary op e.normal .none)
      ([op.token] ++ wrapWords (isBinary e) ts) := by
  have hwrap := h.wrap e.head_pos (isBinary e)
  cases hbinary : isBinary e with
  | true =>
    rw [hbinary] at hwrap
    exact written_unary op hwrap (Nat.lt_succ_self 13) (Nat.le_succ 13)
  | false =>
    rw [hbinary] at hwrap
    have hnone : e.binaryOp? = none := by
      cases e with
      | binary => cases hbinary
      | ident | int | float | bool | str | array | hash | unary | cond | loop | func | call
        | index => rfl
    obtain ⟨hhead, htail⟩ := Expr.head_tail_of_none hnone
    refine written_unary op hwrap ?_ htail
    rw [if_neg (by simp), hhead]
    exact Nat.lt_succ_self 13

/-- The operands of a binary operator: they keep their own operands, or stand in parentheses. -/
theorem WrittenAs.binary_operands {l r : Expr} (op : BinaryOp) {ts us : List Token}
    (hl : WrittenExpr l.head l.tail l.normal ts) (hr : WrittenExpr r.head r.tail r.normal us) :
    WrittenExpr op.precedence.rank op.rightPrecedence.rank (.binary l.normal op r.normal .none)
      (wrapWords (needsParens l op false) ts ++ [.operator op]
        ++ wrapWords (needsParens r op true) us) := by
  have hclosed : op.precedence.rank < tight := Nat.lt_of_le_of_lt op.rank_le_twelve (by decide)
  have hclosed' : op.rightPrecedence.rank < tight :=
    Nat.lt_of_le_of_lt op.rank_rightPrecedence_bounds.1 hclosed
  refine written_binary op (hl.wrap l.head_pos _) (hr.wrap r.head_pos _) ?_ ?_
  -- parentheses close an operand; one without them is out of the operator's reach
  · cases hparens : needsParens l op false with
    | true => exact ⟨Nat.le_of_lt hclosed, Nat.le_of_lt hclosed⟩
    | false => exact Expr.head_tail_of_left hparens
  · cases hparens : needsParens r op true with
    | true => exact ⟨hclosed', Nat.le_of_lt hclosed'⟩
    | false => exact Expr.head_tail_of_right hparens

mutual

theorem Expr.words_written : ∀ e : Expr, e.Spelled → WrittenExpr e.head e.tail e.normal e.words
  | .ident name, _ => written_ident name
  | .int .., h => written_int h.2
  | .float .., h => written_float h.2
  | .bool value _, _ => written_bool value
  | .str value _, _ => written_str value
  | .array elements _, h => by
    unfold Expr.words Expr.normal
    rw [Expr.wordsList_eq, Expr.normalList_eq]
    exact written_array (Expr.wordsList_written elements h)
  | .hash entries _, h => by
    unfold Expr.words Expr.normal
    rw [Entry.wordsList_eq, Entry.normalList_eq]
    exact written_hash (Entry.wordsList_written entries h)
  | .unary op operand _, h => by
    unfold Expr.words Expr.normal
    exact (Expr.words_written operand h).unary_operand op
  | .binary left op right _, h => by
    unfold Expr.words Expr.normal
    exact (Expr.words_written left h.1).binary_operands op (Expr.words_written right h.2)
  | .cond condition consequence alternative _, h => by
    have hc := ((Expr.words_written condition h.1).closed condition.head_pos).item tight_pos
    have hb := Block.words_written consequence h.2.1
    unfold Expr.words Expr.normal
    cases alternative with
    | none =>
      unfold Block.wordsElse
      rw [List.append_nil]
      exact written_cond hc hb
    | some body => exact written_condElse hc hb (Block.words_written body h.2.2)
  | .loop condition body _, h => by
    unfold Expr.words Expr.normal
    have hc := ((Expr.words_written condition h.1).closed condition.head_pos).item tight_pos
    exact written_loop hc (Block.words_written body h.2)
  | .func _ body _, h => by
    unfold Expr.words Expr.normal
    exact written_func (Block.words_written body h.2)
  | .call callee arguments _, h => by
    unfold Expr.words Expr.normal
    rw [Expr.wordsList_eq, Expr.normalList_eq]
    exact written_call (Expr.words_written callee h.1).wrap_operation
      (Expr.wordsList_written arguments h.2)
  | .index target position _, h => by
    unfold Expr.words Expr.normal
    exact written_index (Expr.words_written target h.1).wrap_operation
      ((Expr.words_written position h.2).item position.head_pos)

theorem Expr.wordsList_written : ∀ es : List Expr, Expr.SpelledList es →
    ∀ e ∈ es, WrittenItem e.normal e.words
  | [], _ => fun _ he => absurd he List.not_mem_nil
  | e :: es, h =>
    List.forall_mem_cons.mpr
      ⟨(Expr.words_written e h.1).item e.head_pos, Expr.wordsList_written es h.2⟩

theorem Entry.words_written : ∀ p : Entry, p.Spelled → WrittenEntry p.normal p.words
  | ⟨key, value⟩, h => by
    unfold Entry.words Entry.normal
    exact written_entry ((Expr.words_written key h.1).item key.head_pos)
      ((Expr.words_written value h.2).item value.head_pos)

theorem Entry.wordsList_written : ∀ ps : List Entry, Entry.SpelledList ps →
    ∀ p ∈ ps, WrittenEntry p.normal p.words
  | [], _ => fun _ hp => absurd hp List.not_mem_nil
  | p :: ps, h =>
    List.forall_mem_cons.mpr ⟨Entry.words_written p h.1, Entry.wordsList_written ps h.2⟩

theorem Stmt.words_written : ∀ s : Stmt, s.Spelled → ∀ ts ∈ s.words?, WrittenLine s.normal ts
  | .bind _ value _, h => fun ts hts => by
    obtain rfl := Option.some.inj hts
    exact (written_bind ((Expr.words_written value h.2).item value.head_pos)).line
  | .ret value _, h => fun ts hts => by
    obtain rfl := Option.some.inj hts
    exact (written_ret ((Expr.words_written value h).item value.head_pos)).line
  | .expr value, h => fun ts hts => by
    obtain rfl := Option.some.inj hts
    exact (written_expr (Expr.words_written value h)).line
  | .block body, h => fun ts hts => by
    obtain rfl := Option.some.inj hts
    exact written_blockStmt (Block.words_written body h)
  | .blank _, _ => fun ts hts => absurd hts (by simp [Stmt.words?])

theorem Stmt.wordsList_written : ∀ ss : List Stmt, Stmt.SpelledList ss →
    ∀ s ∈ ss, ∀ ts ∈ s.words?, WrittenLine s.normal ts
  | [], _ => fun _ hs => absurd hs List.not_mem_nil
  | s :: ss, h =>
    List.forall_mem_cons.mpr ⟨Stmt.words_written s h.1, Stmt.wordsList_written ss h.2⟩

theorem Block.words_written : ∀ b : Block, b.Spelled → WrittenBlock b.normal b.words
  | ⟨statements, _⟩, h => written_block (Stmt.wordsList_written statements h)

end

/-- Lexemes with the words of a program are written with its statements. -/
theorem Program.words_written {p : Program} (h : Stmt.SpelledList p.statements) {xs : List Lexeme}
    (hxs : xs.map Lexeme.token =
      linesWords ((trimGaps Stmt.isBlank p.statements).map Stmt.words?)) :
    ∃ ss, Written (.statements ss) xs ∧
      trimGaps Stmt.isBlank (Stmt.normalList ss) =
        trimGaps Stmt.isBlank (Stmt.normalList p.statements) := by
  have hlines := Stmt.wordsList_written p.statements h
  obtain ⟨ss, hss, hmap⟩ :=
    statements_of_linesWords (fun s hs => hlines s (mem_of_mem_trimGaps hs)) hxs
  exact ⟨ss, hss, trimGaps_normalList hmap⟩

end Scriptlet
