import Scriptlet.Proofs.Grammar.Spoken

/-!
# `Proofs.Grammar.Balanced` — parentheses in pairs

Every clause of the grammar opens as many parentheses as it closes, and closes none that it has not
opened. So where something written stands in front of a text that starts with a parenthesis, it goes at
least as far as this parenthesis is open.

## Contents
- `Balanced`: tokens with their parentheses in pairs. `Balanced.append`, `Balanced.parens`.
- `Enclosed`: tokens between two parentheses that belong to each other.
  `Balanced.length_ge_of_enclosed`: no beginning of such tokens is balanced.
  `Balanced.not_enclosed_append`: what is closed before the end is not enclosed.
- `Written.balanced`: everything that is written is balanced.
-/

namespace Scriptlet

/-- Every parenthesis is closed, and none is closed that was not opened before. -/
structure Balanced (ts : List Token) : Prop where
  total : ts.count .rightParen = ts.count .leftParen
  before (n : Nat) : (ts.take n).count .rightParen ≤ (ts.take n).count .leftParen

/-- Whether the token is a parenthesis. -/
def Token.isParen (t : Token) : Bool := t == .leftParen || t == .rightParen

/-- Tokens between two parentheses that belong to each other. -/
def Enclosed (ts : List Token) : Prop :=
  ∃ us, Balanced us ∧ ts = [.leftParen] ++ us ++ [.rightParen]

theorem balanced_nil : Balanced [] := ⟨rfl, fun _ => by simp⟩

section Tokens

variable {t : Token} {ts us vs ws : List Token}

theorem Balanced.append (h : Balanced ts) (h' : Balanced us) : Balanced (ts ++ us) := by
  refine ⟨?_, fun n => ?_⟩
  · rw [List.count_append, List.count_append, h.total, h'.total]
  · have hbefore := h.before n
    have hbefore' := h'.before (n - ts.length)
    rw [List.take_append, List.count_append, List.count_append]
    omega

theorem balanced_singleton (h : t.isParen = false) : Balanced [t] := by
  rw [Token.isParen, Bool.or_eq_false_iff, beq_eq_false_iff_ne, beq_eq_false_iff_ne] at h
  have hcount : [t].count .rightParen = 0 := List.count_eq_zero.mpr (by simpa using h.2.symm)
  have hcount' : [t].count .leftParen = 0 := List.count_eq_zero.mpr (by simpa using h.1.symm)
  refine ⟨hcount.trans hcount'.symm, fun n => ?_⟩
  have hle : ([t].take n).count .rightParen ≤ [t].count .rightParen :=
    (List.take_sublist n [t]).count_le _
  omega

theorem Balanced.cons (h : Balanced ts) (ht : t.isParen = false) : Balanced (t :: ts) :=
  (balanced_singleton ht).append h

theorem Balanced.parens (h : Balanced ts) : Balanced ([.leftParen] ++ ts ++ [.rightParen]) := by
  refine ⟨?_, fun n => ?_⟩
  · simp [h.total]
  · cases n with
    | zero => simp
    | succ n =>
      have hbefore := h.before n
      have hclose : ([Token.rightParen].take (n - ts.length)).count .rightParen ≤ 1 :=
        (List.take_sublist _ [Token.rightParen]).count_le _
      rw [List.append_assoc, List.singleton_append, List.take_succ_cons, List.take_append,
        List.count_cons_of_ne (by decide), List.count_cons_self, List.count_append,
        List.count_append]
      omega

theorem Balanced.wrap (h : Balanced ts) (wanted : Bool) : Balanced (wrapWords wanted ts) := by
  cases wanted with
  | false => exact h
  | true => exact h.parens

/-- What is balanced and starts with an opened parenthesis goes on to where it is closed. -/
theorem Balanced.length_ge_of_enclosed (h : Balanced ts) (hne : ts ≠ []) (hus : Enclosed us)
    (heq : ts ++ vs = us ++ ws) : us.length ≤ ts.length := by
  obtain ⟨ms, hms, rfl⟩ := hus
  refine Nat.le_of_not_lt fun hlt => ?_
  obtain ⟨t, ts, rfl⟩ := List.exists_cons_of_ne_nil hne
  rw [List.append_assoc, List.append_assoc, List.cons_append, List.singleton_append] at heq
  obtain ⟨rfl, hrest⟩ := List.cons.inj heq
  -- inside of the parentheses no more are closed than opened, which leaves the first one open
  have hshort : ts.length ≤ ms.length := by
    simp only [List.length_append, List.length_cons, List.length_nil] at hlt
    omega
  have htake : ts = ms.take ts.length := by
    have htaken := congrArg (List.take ts.length) hrest
    rwa [List.take_left, List.take_append_of_le_length hshort] at htaken
  have htotal := h.total
  have hbefore := hms.before ts.length
  rw [List.count_cons_of_ne (by decide), List.count_cons_self] at htotal
  rw [← htake] at hbefore
  omega

/-- What is closed before the end is not in one pair of parentheses. -/
theorem Balanced.not_enclosed_append (h : Balanced ts) (hne : ts ≠ []) (hne' : us ≠ []) :
    ¬ Enclosed (ts ++ us) := by
  intro henclosed
  have hlength := h.length_ge_of_enclosed hne henclosed (List.append_nil (ts ++ us)).symm
  have hpos := List.length_pos_iff.mpr hne'
  rw [List.length_append] at hlength
  omega

end Tokens

/-! ## Lexemes -/

/-- The parentheses among the lexemes are balanced. -/
abbrev BalancedLexemes (xs : List Lexeme) : Prop := Balanced (xs.map Lexeme.token)

section Lexemes

variable {x z : Lexeme} {xs ys bs : List Lexeme}

theorem Balanced.append_lexemes (h : BalancedLexemes xs) (h' : BalancedLexemes ys) :
    BalancedLexemes (xs ++ ys) := by
  unfold BalancedLexemes
  rw [List.map_append]
  exact h.append h'

theorem Balanced.cons_lexeme (h : BalancedLexemes xs) (hx : x.token.isParen = false) :
    BalancedLexemes (x :: xs) :=
  Balanced.cons h hx

theorem balanced_lexeme (hx : x.token.isParen = false) : BalancedLexemes [x] :=
  balanced_singleton hx

theorem Balanced.parens_lexemes (h : BalancedLexemes xs) (hx : x.token = .leftParen)
    (hz : z.token = .rightParen) : BalancedLexemes (x :: (xs ++ [z])) := by
  unfold BalancedLexemes
  rw [List.map_cons, List.map_append, List.map_singleton, hx, hz]
  exact Balanced.parens h

/-- Something between brackets or braces. -/
theorem Balanced.between (h : BalancedLexemes xs) (hx : x.token.isParen = false)
    (hz : z.token.isParen = false) : BalancedLexemes (x :: (xs ++ [z])) :=
  (h.append_lexemes (balanced_lexeme hz)).cons_lexeme hx

theorem Blanks.balanced (h : Blanks bs) : BalancedLexemes bs := by
  induction bs with
  | nil => exact balanced_nil
  | cons b bs ih =>
    refine (ih fun x hx => h x (List.mem_cons_of_mem b hx)).cons_lexeme ?_
    rw [h b List.mem_cons_self]
    rfl

theorem More.balanced {pieces : List (List Lexeme)} (h : More pieces xs)
    (hp : ∀ p ∈ pieces, BalancedLexemes p) : BalancedLexemes xs := by
  induction h with
  | nil hb => exact hb.balanced
  | cons hb hc hb' _ ih =>
    obtain ⟨hfirst, hothers⟩ := List.forall_mem_cons.mp hp
    refine hb.balanced.append_lexemes (Balanced.cons_lexeme ?_ (by rw [hc]; rfl))
    exact hb'.balanced.append_lexemes (hfirst.append_lexemes (ih hothers))

theorem Separated.balanced {α : Type} {items : List (α × List Lexeme)}
    (h : Separated (items.map Prod.snd) xs) (hi : ∀ i ∈ items, BalancedLexemes i.2) :
    BalancedLexemes xs := by
  have hp : ∀ p ∈ items.map Prod.snd, BalancedLexemes p := List.forall_mem_map.mpr hi
  generalize items.map Prod.snd = pieces at h hp
  cases h with
  | nil hb => exact hb.balanced
  | cons hb hmore =>
    obtain ⟨hfirst, hothers⟩ := List.forall_mem_cons.mp hp
    exact hb.balanced.append_lexemes (hfirst.append_lexemes (hmore.balanced hothers))

theorem Lexeme.isParen_of_leaf? {e : Expr} (h : x.leaf? = some e) : x.token.isParen = false := by
  unfold leaf? at h
  cases hx : x.token <;> rw [hx] at h <;> first | rfl | exact absurd h (by simp)

theorem Lexeme.isParen_of_name? {i : Ident} (h : x.name? = some i) : x.token.isParen = false := by
  unfold name? at h
  split at h
  · next text hx =>
    rw [hx]
    rfl
  · cases h

theorem Token.isParen_of_unaryOp? {t : Token} {op : UnaryOp} (h : t.unaryOp? = some op) :
    t.isParen = false := by
  rcases unaryOp?_eq_some h with rfl | rfl
  · rfl
  · rfl

end Lexemes

/-- What is written has its parentheses in pairs. -/
theorem Written.balanced {f : Form} {xs : List Lexeme} (h : Written f xs) : BalancedLexemes xs := by
  induction h with
  | leaf h => exact balanced_lexeme (Lexeme.isParen_of_leaf? h)
  | group hx _ hb hz ih =>
    rw [← List.append_assoc]
    exact (ih.append_lexemes hb.balanced).parens_lexemes hx hz
  | array hx _ hys hz ih => exact (hys.balanced ih).between (by rw [hx]; rfl) (by rw [hz]; rfl)
  | hash hx _ hys hz ih => exact (hys.balanced ih).between (by rw [hx]; rfl) (by rw [hz]; rfl)
  | unary hx hb _ _ _ ih =>
    exact (hb.balanced.append_lexemes ih).cons_lexeme (Token.isParen_of_unaryOp? hx)
  | binary _ _ _ hx hb _ _ _ _ ihl ihr =>
    exact ihl.append_lexemes ((hb.balanced.append_lexemes ihr).cons_lexeme (by rw [hx]; rfl))
  | cond hx _ _ ihc ihb => exact (ihc.append_lexemes ihb).cons_lexeme (by rw [hx]; rfl)
  | condElse hx _ _ hy _ ihc ihb ihb' =>
    refine Balanced.cons_lexeme (ihc.append_lexemes (ihb.append_lexemes ?_)) (by rw [hx]; rfl)
    exact ihb'.cons_lexeme (by rw [hy]; rfl)
  | loop hx _ _ ihc ihb => exact (ihc.append_lexemes ihb).cons_lexeme (by rw [hx]; rfl)
  | func hx hy hnames hys hz _ ihb =>
    have hparameters := hys.balanced fun i hi => by
      obtain ⟨w, hw, hname⟩ := hnames i hi
      rw [hw]
      exact balanced_lexeme (Lexeme.isParen_of_name? hname)
    exact ((hparameters.parens_lexemes hy hz).append_lexemes ihb).cons_lexeme (by rw [hx]; rfl)
  | call _ hx _ hys hz ihf ih =>
    exact ihf.append_lexemes ((hys.balanced ih).parens_lexemes hx hz)
  | index _ hx _ hb hz ihe ihi =>
    rw [← List.append_assoc]
    refine ihe.append_lexemes ?_
    exact (ihi.append_lexemes hb.balanced).between (by rw [hx]; rfl) (by rw [hz]; rfl)
  | item _ _ ih => exact ih
  | whole hb _ ih => exact hb.balanced.append_lexemes ih
  | entry _ hb hc _ ihk ihv =>
    exact ihk.append_lexemes (hb.balanced.append_lexemes (ihv.cons_lexeme (by rw [hc]; rfl)))
  | block hx _ hz ih => exact ih.between (by rw [hx]; rfl) (by rw [hz]; rfl)
  | bind hx hn hy _ ih =>
    refine Balanced.cons_lexeme (Balanced.cons_lexeme ?_ ?_) (by rw [hx]; rfl)
    · exact ih.cons_lexeme (by rw [hy]; rfl)
    · exact Lexeme.isParen_of_name? hn
  | ret hx _ ih => exact ih.cons_lexeme (by rw [hx]; rfl)
  | exprStmt _ _ ih => exact ih
  | nil => exact balanced_nil
  | semicolon hx _ ih => exact ih.cons_lexeme (by rw [hx]; rfl)
  | blank hx _ ih => exact ih.cons_lexeme (by rw [hx]; rfl)
  | blockStmt _ _ ihb ih => exact ihb.append_lexemes ih
  | ended _ hx _ ihs ih => exact ihs.append_lexemes (ih.cons_lexeme (by rw [hx]; rfl))
  | unended _ _ _ ihs ih => exact ihs.append_lexemes ih

end Scriptlet
