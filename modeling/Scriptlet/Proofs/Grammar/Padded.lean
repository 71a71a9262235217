import Mathlib.Logic.Basic
import Scriptlet.Proofs.Grammar.Derived
import Scriptlet.Proofs.Syntax.Placeless

/-!
# `Proofs.Grammar.Padded` — blank lines inside expressions

A blank line between statements is a statement of its own. Behind an operator, an opening parenthesis
or bracket, a comma, a colon, `return`, `if` or `while`, and in front of a closing parenthesis or
bracket, a comma or a colon it is none: an expression goes on there, and lexemes with blank lines put
in are read as the same program at other places.

No rule of the grammar is looked at for this. What is read without a fault is written
(`written_of_parseLexemes`), and each clause of `Written` bears blank lines at these places.

## Contents
- `Padded`: blank lines put in between lexemes. `padded_behind`, `padded_before`: at one place.
- `Spaced`: the same with nothing behind the last lexeme; it goes apart where the lexemes do.
- `Form.Spreads`: what a form is written with can be spaced. There is one lemma for each clause.
- `parseLexemes_padded`: a whole program.
-/

namespace Scriptlet

/-! ## Blank lines put in -/

namespace Token

/-- Tokens behind which an expression, or a part of one, is still to come. -/
def opensGap : Token → Bool
  | operator _ | bang | leftParen | leftBracket | comma | colon | kwReturn | kwIf | kwWhile => true
  | _ => false

/-- Tokens with which an expression in a list, a group, an index or a hash is over. -/
def closesGap : Token → Bool
  | rightParen | rightBracket | comma | colon => true
  | _ => false

end Token

/-- Whether the first lexeme is one in front of which blank lines may be put. -/
def closesNext (xs : List Lexeme) : Bool := xs.head?.any fun x => x.token.closesGap

/-- The second list has the tokens of the first one and blank lines among them. These stand behind
    tokens that open a gap and in front of tokens that close one. `opened` says whether the token in
    front of the lists opens one. -/
inductive Padded : Bool → List Lexeme → List Lexeme → Prop
  | nil {opened : Bool} : Padded opened [] []
  | gap {opened : Bool} {y : Lexeme} {xs ys : List Lexeme} (hy : y.token = .blankLine)
      (hgap : (opened || closesNext xs) = true) (h : Padded opened xs ys) : Padded opened xs (y :: ys)
  | keep {opened : Bool} {x y : Lexeme} {xs ys : List Lexeme} (hy : y.token = x.token)
      (h : Padded x.token.opensGap xs ys) : Padded opened (x :: xs) (y :: ys)

/-- Nothing need be put in. -/
theorem padded_refl (opened : Bool) (xs : List Lexeme) : Padded opened xs xs := by
  induction xs generalizing opened with
  | nil => exact .nil
  | cons x xs ih => exact .keep rfl (ih _)

/-- Any number of blank lines at one place. -/
theorem Padded.gaps {opened : Bool} {xs ys bs : List Lexeme} (hb : Blanks bs)
    (hgap : bs ≠ [] → (opened || closesNext xs) = true) (h : Padded opened xs ys) :
    Padded opened xs (bs ++ ys) := by
  induction bs with
  | nil => exact h
  | cons b bs ih =>
    refine .gap (hb b List.mem_cons_self) (hgap (List.cons_ne_nil b bs)) (ih ?_ fun _ => ?_)
    · exact fun x hx => hb x (List.mem_cons_of_mem b hx)
    · exact hgap (List.cons_ne_nil b bs)

theorem Padded.prepend {ys zs : List Lexeme} (h : ∀ opened, Padded opened ys zs) (opened : Bool)
    (xs : List Lexeme) : Padded opened (xs ++ ys) (xs ++ zs) := by
  induction xs generalizing opened with
  | nil => exact h opened
  | cons x xs ih => exact .keep rfl (ih _)

/-- Blank lines put in behind one lexeme. -/
theorem padded_behind {x : Lexeme} {bs : List Lexeme} (hx : x.token.opensGap = true)
    (hb : Blanks bs) (opened : Bool) (xs ys : List Lexeme) :
    Padded opened (xs ++ x :: ys) (xs ++ x :: (bs ++ ys)) := by
  refine Padded.prepend (fun _ => .keep rfl ?_) opened xs
  exact (padded_refl x.token.opensGap ys).gaps hb fun _ => by rw [hx, Bool.true_or]

/-- Blank lines put in in front of one lexeme. -/
theorem padded_before {x : Lexeme} {bs : List Lexeme} (hx : x.token.closesGap = true)
    (hb : Blanks bs) (opened : Bool) (xs ys : List Lexeme) :
    Padded opened (xs ++ x :: ys) (xs ++ (bs ++ x :: ys)) := by
  refine Padded.prepend (fun opened => ?_) opened xs
  refine (padded_refl opened (x :: ys)).gaps hb fun _ => ?_
  have hnext : closesNext (x :: ys) = true := hx
  rw [hnext, Bool.or_true]

/-! ### No blank line behind the last lexeme -/

/-- Blank lines put in in front of lexemes. -/
inductive Spaced : Bool → List Lexeme → List Lexeme → Prop
  | nil {opened : Bool} : Spaced opened [] []
  | cons {opened : Bool} {gap xs ys : List Lexeme} {x y : Lexeme} (hb : Blanks gap)
      (hgap : gap ≠ [] → (opened || x.token.closesGap) = true) (hy : y.token = x.token)
      (h : Spaced x.token.opensGap xs ys) : Spaced opened (x :: xs) (gap ++ y :: ys)

/-- Whether blank lines may be put behind the last lexeme, `opened` if there is none. -/
def opensLast : Bool → List Lexeme → Bool
  | opened, [] => opened
  | _, x :: xs => opensLast x.token.opensGap xs

theorem opensLast_append (opened : Bool) (xs ys : List Lexeme) :
    opensLast opened (xs ++ ys) = opensLast (opensLast opened xs) ys := by
  induction xs generalizing opened with
  | nil => rfl
  | cons x xs ih => exact ih _

theorem opensLast_cons (opened : Bool) (x : Lexeme) (xs : List Lexeme) :
    opensLast opened (x :: xs) = opensLast x.token.opensGap xs := rfl

theorem closesNext_append {xs ys : List Lexeme} (h : xs ≠ []) :
    closesNext (xs ++ ys) = closesNext xs := by
  cases xs with
  | nil => exact absurd rfl h
  | cons x xs => rfl

theorem Blanks.append {bs cs : List Lexeme} (hb : Blanks bs) (hc : Blanks cs) :
    Blanks (bs ++ cs) := by
  intro x hx
  rcases List.mem_append.mp hx with hx | hx
  · exact hb x hx
  · exact hc x hx

/-- Blank lines behind the last lexeme stand apart. -/
theorem Padded.spaced {opened : Bool} {xs ys : List Lexeme} (h : Padded opened xs ys) :
    ∃ zs bs, ys = zs ++ bs ∧ Spaced opened xs zs ∧ Blanks bs ∧
      (bs ≠ [] → opensLast opened xs = true) := by
  induction h with
  | nil => exact ⟨[], [], rfl, .nil, blanks_nil, fun h => absurd rfl h⟩
  | @gap opened y xs ys hy hgap h ih =>
    obtain ⟨zs, bs, rfl, hzs, hbs, hlast⟩ := ih
    cases hzs with
    | nil =>
      have hopened : opened = true := by simpa [closesNext] using hgap
      exact ⟨[], y :: bs, rfl, .nil, List.forall_mem_cons.mpr ⟨hy, hbs⟩, fun _ => hopened⟩
    | @cons _ gap _ zs x z hb hmay hz hrest =>
      refine ⟨(y :: gap) ++ z :: zs, bs, rfl, ?_, hbs, hlast⟩
      exact .cons (List.forall_mem_cons.mpr ⟨hy, hb⟩) (fun _ => hgap) hz hrest
  | @keep opened x y xs ys hy h ih =>
    obtain ⟨zs, bs, rfl, hzs, hbs, hlast⟩ := ih
    exact ⟨[] ++ y :: zs, bs, rfl, .cons blanks_nil (fun h => absurd rfl h) hy hzs, hbs, hlast⟩

namespace Spaced

variable {opened : Bool} {x z : Lexeme} {xs ys zs bs : List Lexeme}

theorem split (h : Spaced opened (xs ++ ys) zs) :
    ∃ us vs, zs = us ++ vs ∧ Spaced opened xs us ∧ Spaced (opensLast opened xs) ys vs := by
  induction xs generalizing opened zs with
  | nil => exact ⟨[], zs, rfl, .nil, h⟩
  | cons x xs ih =>
    cases h with
    | @cons _ gap _ ys' _ y hb hgap hy h =>
      obtain ⟨us, vs, rfl, hus, hvs⟩ := ih h
      exact ⟨gap ++ y :: us, vs, by rw [List.append_assoc, List.cons_append],
        .cons hb hgap hy hus, hvs⟩

/-- Nothing stands in front of a lexeme where no gap may be. -/
theorem head (h : Spaced opened (x :: xs) zs) (hgap : (opened || x.token.closesGap) = false) :
    ∃ y ys, zs = y :: ys ∧ y.token = x.token ∧ Spaced x.token.opensGap xs ys := by
  cases h with
  | @cons _ gap _ ys _ y hb hmay hy h =>
    cases gap with
    | nil => exact ⟨y, ys, rfl, hy, h⟩
    | cons b gap => exact absurd ((hmay (List.cons_ne_nil b gap)).symm.trans hgap) (by simp)

/-- Blank lines stay blank lines. -/
theorem blanks (h : Spaced opened bs zs) (hb : Blanks bs) : Blanks zs := by
  induction h with
  | nil => exact blanks_nil
  | @cons _ gap _ _ x y hgap _ hy _ ih =>
    refine hgap.append (List.forall_mem_cons.mpr ⟨?_, ih fun z hz => ?_⟩)
    · rw [hy]
      exact hb x List.mem_cons_self
    · exact hb z (List.mem_cons_of_mem x hz)

/-- The first lexeme and the blank lines in front of it. -/
theorem uncons (h : Spaced opened (x :: xs) zs) : ∃ gap y ys, zs = gap ++ y :: ys ∧ Blanks gap ∧
    y.token = x.token ∧ Spaced x.token.opensGap xs ys := by
  cases h with
  | @cons _ gap _ ys _ y hb _ hy h => exact ⟨gap, y, ys, rfl, hb, hy, h⟩

/-- One lexeme and the blank lines in front of it. -/
theorem single (h : Spaced opened [x] zs) :
    ∃ bs y, zs = bs ++ [y] ∧ Blanks bs ∧ y.token = x.token := by
  obtain ⟨gap, y, ys, rfl, hb, hy, h⟩ := h.uncons
  cases h with
  | nil => exact ⟨gap, y, rfl, hb, hy⟩

/-- The end of a group or an index. -/
theorem closing (h : Spaced opened (bs ++ [z]) zs) (hb : Blanks bs) :
    ∃ bs' z', zs = bs' ++ [z'] ∧ Blanks bs' ∧ z'.token = z.token := by
  obtain ⟨us, vs, rfl, hus, hvs⟩ := h.split
  obtain ⟨gap, z', rfl, hgap, hz⟩ := hvs.single
  exact ⟨us ++ gap, z', by rw [List.append_assoc], (hus.blanks hb).append hgap, hz⟩

end Spaced

/-! ## What is written can be spaced -/

/-- The form, up to places, is written with the lexemes. -/
def Form.Rewritten : Form → List Lexeme → Prop
  | .expr head tail e, ys => ∃ e', Written (.expr head tail e') ys ∧ e'.placeless = e.placeless
  | .item e, ys => ∃ e', Written (.item e') ys ∧ e'.placeless = e.placeless
  | .whole e, ys => ∃ e', Written (.whole e') ys ∧ e'.placeless = e.placeless
  | .entry p, ys => ∃ p', Written (.entry p') ys ∧ p'.placeless = p.placeless
  | .block b, ys => ∃ b', Written (.block b') ys ∧ b'.placeless = b.placeless
  | .simple s, ys => ∃ s', Written (.simple s') ys ∧ s'.placeless = s.placeless
  | .statements ss, ys =>
    ∃ ss', Written (.statements ss') ys ∧ Stmt.placelessList ss' = Stmt.placelessList ss

/-- Spaced lexemes of the form are its lexemes behind blank lines, and there are such lines in front
    only where they may be put. -/
def Form.Spreads (f : Form) (xs : List Lexeme) : Prop :=
  ∀ opened zs, Spaced opened xs zs → ∃ gap ys, zs = gap ++ ys ∧ Blanks gap ∧
    (gap ≠ [] → (opened || closesNext xs) = true) ∧ f.Rewritten ys

/-! ### First and last lexemes -/

theorem closesNext_of_starts {xs : List Lexeme}
    (h : ∃ x ys, xs = x :: ys ∧ x.token.startsExpr = true) : closesNext xs = false := by
  obtain ⟨x, ys, rfl, hx⟩ := h
  show x.token.closesGap = false
  cases hc : x.token <;> rw [hc] at hx <;> first | rfl | cases hx

theorem closesNext_blanks {bs xs : List Lexeme} (hb : Blanks bs) (h : closesNext xs = false) :
    closesNext (bs ++ xs) = false := by
  cases bs with
  | nil => exact h
  | cons b bs =>
    show b.token.closesGap = false
    rw [hb b List.mem_cons_self]
    rfl

theorem closesNext_cons {x : Lexeme} {t : Token} (xs : List Lexeme) (hx : x.token = t)
    (ht : t.closesGap = false) : closesNext (x :: xs) = false := by
  show x.token.closesGap = false
  rw [hx, ht]

theorem Written.closesNext_simple {st : Stmt} {xs : List Lexeme} (h : Written (.simple st) xs) :
    closesNext xs = false := by
  cases h with
  | bind hx | ret hx => exact closesNext_cons _ hx rfl
  | exprStmt _ he => exact closesNext_of_starts he.starts

/-- What is written starts with no lexeme that closes a gap. -/
theorem Written.closesNext_eq {f : Form} {xs : List Lexeme} (h : Written f xs) :
    closesNext xs = false := by
  cases f with
  | expr | item | entry => exact closesNext_of_starts h.starts
  | whole e =>
    cases h with
    | whole hb h => exact closesNext_blanks hb (closesNext_of_starts h.starts)
  | block b =>
    obtain ⟨x, ys, rfl, hx⟩ := h.startsBlock
    exact closesNext_cons ys hx rfl
  | simple st => exact h.closesNext_simple
  | statements ss =>
    cases h with
    | nil => rfl
    | semicolon hx | blank hx => exact closesNext_cons _ hx rfl
    | blockStmt hb =>
      obtain ⟨x, ys, rfl, hx⟩ := hb.startsBlock
      exact closesNext_cons _ hx rfl
    | ended hs | unended hs =>
      obtain ⟨x, ys, rfl, -⟩ := hs.simple_cons
      exact hs.closesNext_simple

/-- The last of the lexemes opens no gap. -/
def Shut (xs : List Lexeme) : Prop := xs ≠ [] ∧ ∀ opened, opensLast opened xs = false

theorem shut_single {x : Lexeme} {t : Token} (hx : x.token = t) (ht : t.opensGap = false) :
    Shut [x] := by
  refine ⟨List.cons_ne_nil x [], fun _ => ?_⟩
  show x.token.opensGap = false
  rw [hx, ht]

theorem Shut.append {ys : List Lexeme} (h : Shut ys) (xs : List Lexeme) : Shut (xs ++ ys) := by
  refine ⟨fun hnil => h.1 (List.append_eq_nil_iff.mp hnil).2, fun opened => ?_⟩
  rw [opensLast_append]
  exact h.2 _

theorem Shut.cons {ys : List Lexeme} (h : Shut ys) (x : Lexeme) : Shut (x :: ys) := h.append [x]

/-- What is written ends with no lexeme that opens a gap; of statements there may be none. -/
def Form.EndsShut : Form → List Lexeme → Prop
  | .statements _, xs => opensLast false xs = false
  | _, xs => Shut xs

theorem shut_leaf {x : Lexeme} {e : Expr} (h : x.leaf? = some e) : Shut [x] := by
  refine shut_single rfl ?_
  unfold Lexeme.leaf? at h
  cases hx : x.token <;> rw [hx] at h <;> first | rfl | cases h

theorem Written.endsShut {f : Form} {xs : List Lexeme} (h : Written f xs) : f.EndsShut xs := by
  induction h with
  | leaf h => exact shut_leaf h
  | group _ _ _ hz => exact (((shut_single hz rfl).append _).append _).cons _
  | array _ _ _ hz | hash _ _ _ hz => exact ((shut_single hz rfl).append _).cons _
  | unary _ _ _ _ _ ih => exact (ih.append _).cons _
  | binary _ _ _ _ _ _ _ _ _ _ ih => exact ((ih.append _).cons _).append _
  | cond _ _ _ _ ih | loop _ _ _ _ ih => exact (ih.append _).cons _
  | condElse _ _ _ _ _ _ _ ih => exact (((ih.cons _).append _).append _).cons _
  | func _ _ _ _ _ _ ih => exact ((ih.append _).cons _).cons _
  | call _ _ _ _ hz => exact (((shut_single hz rfl).append _).cons _).append _
  | index _ _ _ _ hz => exact ((((shut_single hz rfl).append _).append _).cons _).append _
  | item _ _ ih => exact ih
  | whole _ _ ih => exact ih.append _
  | entry _ _ _ _ _ ih => exact ((ih.cons _).append _).append _
  | block _ _ hz => exact ((shut_single hz rfl).append _).cons _
  | bind _ _ _ _ ih => exact ((ih.cons _).cons _).cons _
  | ret _ _ ih => exact ih.cons _
  | exprStmt _ _ ih => exact ih
  | nil => rfl
  | semicolon hx _ ih | blank hx _ ih =>
    show opensLast false _ = false
    rw [opensLast_cons, hx]
    exact ih
  | blockStmt _ _ ihb ih =>
    show opensLast false _ = false
    rw [opensLast_append, ihb.2]
    exact ih
  | ended _ hx _ ihs ih =>
    show opensLast false _ = false
    rw [opensLast_append, opensLast_cons, hx]
    exact ih
  | unended _ _ _ ihs ih =>
    show opensLast false _ = false
    rw [opensLast_append, ihs.2]
    exact ih

/-! ### Lists -/

section Lists

variable {α β : Type} {W : α → List Lexeme → Prop} {same : α → β} {items : List (α × List Lexeme)}
  {ys zs : List Lexeme} {opened : Bool}

theorem More.append_blanks {ps : List (List Lexeme)} {bs : List Lexeme} (h : More ps ys)
    (hb : Blanks bs) : More ps (ys ++ bs) := by
  induction h with
  | nil hb' => exact .nil (hb'.append hb)
  | cons hb' hc hb'' _ ih =>
    rw [List.append_assoc, List.cons_append, List.append_assoc, List.append_assoc]
    exact .cons hb' hc hb'' ih

theorem Separated.append_blanks {ps : List (List Lexeme)} {bs : List Lexeme} (h : Separated ps ys)
    (hb : Blanks bs) : Separated ps (ys ++ bs) := by
  cases h with
  | nil hb' => exact .nil (hb'.append hb)
  | cons hb' h =>
    rw [List.append_assoc, List.append_assoc]
    exact .cons hb' (h.append_blanks hb)

/-- Spaced lexemes of `a` are those of an `a'` that is the same up to places, behind blank lines. -/
def ItemSpreads (W : α → List Lexeme → Prop) (same : α → β) (a : α) (xs : List Lexeme) : Prop :=
  ∀ opened zs, Spaced opened xs zs → ∃ gap ys a', zs = gap ++ ys ∧ Blanks gap ∧ W a' ys ∧
    same a' = same a

variable (hitems : ∀ i ∈ items, ItemSpreads W same i.1 i.2)

include hitems

theorem more_spreads (h : More (items.map Prod.snd) ys) (hs : Spaced opened ys zs) :
    ∃ items' : List (α × List Lexeme), (∀ i ∈ items', W i.1 i.2) ∧
      (items'.map Prod.fst).map same = (items.map Prod.fst).map same ∧
      More (items'.map Prod.snd) zs := by
  induction items generalizing ys zs opened with
  | nil =>
    cases h with
    | nil hb => exact ⟨[], fun i hi => absurd hi List.not_mem_nil, rfl, .nil (hs.blanks hb)⟩
  | cons i items ih =>
    obtain ⟨a, xs⟩ := i
    rw [List.map_cons] at h
    cases h with
    | @cons bs bs' _ ys c _ hb hc hb' h =>
      obtain ⟨us, _, rfl, hus, hrest⟩ := hs.split
      obtain ⟨gap, c', _, rfl, hgap, hc', hrest⟩ := hrest.uncons
      obtain ⟨vs, _, rfl, hvs, hrest⟩ := hrest.split
      obtain ⟨_, ys', rfl, hfirst, hys'⟩ := hrest.split
      obtain ⟨gap', xs', a', rfl, hgap', ha', hsame⟩ := hitems _ List.mem_cons_self _ _ hfirst
      obtain ⟨items', hitems', hfst, hmore⟩ :=
        ih (fun j hj => hitems j (List.mem_cons_of_mem _ hj)) h hys'
      refine ⟨(a', xs') :: items', List.forall_mem_cons.mpr ⟨ha', hitems'⟩, ?_, ?_⟩
      · rw [List.map_cons, List.map_cons, hsame, hfst]
        rfl
      · have hcons : More (xs' :: _) _ := .cons ((hus.blanks hb).append hgap) (hc'.trans hc)
          ((hvs.blanks hb').append hgap') hmore
        simpa only [List.map_cons, List.append_assoc, List.cons_append, List.nil_append] using hcons

theorem separated_spreads (h : Separated (items.map Prod.snd) ys) (hs : Spaced opened ys zs) :
    ∃ items' : List (α × List Lexeme), (∀ i ∈ items', W i.1 i.2) ∧
      (items'.map Prod.fst).map same = (items.map Prod.fst).map same ∧
      Separated (items'.map Prod.snd) zs := by
  cases items with
  | nil =>
    cases h with
    | nil hb => exact ⟨[], fun i hi => absurd hi List.not_mem_nil, rfl, .nil (hs.blanks hb)⟩
  | cons i items =>
    obtain ⟨a, xs⟩ := i
    rw [List.map_cons] at h
    cases h with
    | @cons bs _ ys _ hb h =>
      obtain ⟨us, _, rfl, hus, hrest⟩ := hs.split
      obtain ⟨_, ys', rfl, hfirst, hys'⟩ := hrest.split
      obtain ⟨gap, xs', a', rfl, hgap, ha', hsame⟩ := hitems _ List.mem_cons_self _ _ hfirst
      obtain ⟨items', hitems', hfst, hmore⟩ :=
        more_spreads (fun j hj => hitems j (List.mem_cons_of_mem _ hj)) h hys'
      refine ⟨(a', xs') :: items', List.forall_mem_cons.mpr ⟨ha', hitems'⟩, ?_, ?_⟩
      · rw [List.map_cons, List.map_cons, hsame, hfst]
        rfl
      · rw [List.append_assoc, ← List.append_assoc]
        exact .cons ((hus.blanks hb).append hgap) hmore

/-- Items up to their closing token. -/
theorem list_spreads {z : Lexeme} (h : Separated (items.map Prod.snd) ys)
    (hs : Spaced opened (ys ++ [z]) zs) :
    ∃ (items' : List (α × List Lexeme)) (ws : List Lexeme) (z' : Lexeme), zs = ws ++ [z'] ∧
      z'.token = z.token ∧ (∀ i ∈ items', W i.1 i.2) ∧
      (items'.map Prod.fst).map same = (items.map Prod.fst).map same ∧
      Separated (items'.map Prod.snd) ws := by
  obtain ⟨us, vs, rfl, hus, hvs⟩ := hs.split
  obtain ⟨gap, z', rfl, hgap, hz'⟩ := hvs.single
  obtain ⟨items', hitems', hfst, hsep⟩ := separated_spreads hitems h hus
  exact ⟨items', us ++ gap, z', (List.append_assoc us gap [z']).symm, hz', hitems', hfst,
    hsep.append_blanks hgap⟩

end Lists

/-! ### Clause by clause -/

section Clauses

variable {f g : Form} {x y z : Lexeme} {xs ys zs bs : List Lexeme} {opened : Bool}

/-- Where no blank line may be put in front of the form, none is. -/
theorem Form.Spreads.tight (h : f.Spreads xs) (hs : Spaced opened xs zs) (hopened : opened = false)
    (hnext : closesNext xs = false) : f.Rewritten zs := by
  obtain ⟨gap, ys, rfl, -, hgap, hys⟩ := h opened zs hs
  cases gap with
  | nil => exact hys
  | cons b gap =>
    have hmay := hgap (List.cons_ne_nil b gap)
    rw [hopened, hnext] at hmay
    cases hmay

/-- Blank lines in front of a whole expression go with it. -/
theorem Form.Spreads.whole {e : Expr} (h : (Form.whole e).Spreads xs) (hs : Spaced opened xs zs) :
    (Form.whole e).Rewritten zs := by
  obtain ⟨gap, _, rfl, hgap, -, e', he', hsame⟩ := h opened zs hs
  cases he' with
  | whole hb he' =>
    rw [← List.append_assoc]
    exact ⟨e', .whole (hgap.append hb) he', hsame⟩

/-- A form that starts with a lexeme of its own. -/
theorem spreads_cons (h : ∀ y ys, y.token = x.token → Spaced x.token.opensGap xs ys →
    f.Rewritten (y :: ys)) : f.Spreads (x :: xs) := by
  intro opened zs hs
  cases hs with
  | @cons _ gap _ ys _ y hb hgap hy hs => exact ⟨gap, y :: ys, rfl, hb, hgap, h y ys hy hs⟩

/-- A form that starts with another one. -/
theorem spreads_append (hf : f.Spreads xs) (hshut : Shut xs)
    (h : ∀ us vs, f.Rewritten us → Spaced false ys vs → g.Rewritten (us ++ vs)) :
    g.Spreads (xs ++ ys) := by
  intro opened zs hs
  obtain ⟨_, vs, rfl, hxs, hys⟩ := hs.split
  rw [hshut.2] at hys
  obtain ⟨gap, us, rfl, hb, hgap, hus⟩ := hf opened _ hxs
  refine ⟨gap, us ++ vs, List.append_assoc gap us vs, hb, ?_, h us vs hus hys⟩
  rw [closesNext_append hshut.1]
  exact hgap

theorem leaf_spreads {e : Expr} (h : x.leaf? = some e) : (Form.expr tight tight e).Spreads [x] := by
  refine spreads_cons fun y ys hy hs => ?_
  cases hs with
  | nil =>
    -- the place of a leaf is all that depends on the place of its lexeme
    have hleaf : ∃ e', y.leaf? = some e' ∧ e'.placeless = e.placeless := by
      unfold Lexeme.leaf? at h ⊢
      rw [hy]
      split at h
      case h_2 | h_3 =>
        obtain ⟨value, hvalue, rfl⟩ := Option.map_eq_some_iff.mp h
        exact ⟨_, Option.map_eq_some_iff.mpr ⟨value, hvalue, rfl⟩, rfl⟩
      case h_7 => cases h
      all_goals
        cases h
        exact ⟨_, rfl, rfl⟩
    obtain ⟨e', he', hsame⟩ := hleaf
    exact ⟨e', .leaf he', hsame⟩

theorem group_spreads {e : Expr} (hx : x.token = .leftParen) (he : (Form.whole e).Spreads xs)
    (hb : Blanks bs) (hz : z.token = .rightParen) :
    (Form.expr tight tight e).Spreads (x :: (xs ++ (bs ++ [z]))) := by
  refine spreads_cons fun y ys hy hs => ?_
  obtain ⟨us, _, rfl, hus, hclose⟩ := hs.split
  obtain ⟨e', he', hsame⟩ := he.whole hus
  obtain ⟨bs', z', rfl, hb', hz'⟩ := hclose.closing hb
  exact ⟨e', .group (hy.trans hx) he' hb' (hz'.trans hz), hsame⟩

/-- Spaced items are items that are the same up to places. -/
theorem Form.Spreads.item {e : Expr} (h : (Form.item e).Spreads xs) :
    ItemSpreads (fun e xs => Written (.item e) xs) Expr.placeless e xs := by
  intro opened zs hs
  obtain ⟨gap, ys, rfl, hgap, -, e', he', hsame⟩ := h opened zs hs
  exact ⟨gap, ys, e', rfl, hgap, he', hsame⟩

theorem Form.Spreads.entry {p : Entry} (h : (Form.entry p).Spreads xs) :
    ItemSpreads (fun p xs => Written (.entry p) xs) Entry.placeless p xs := by
  intro opened zs hs
  obtain ⟨gap, ys, rfl, hgap, -, p', hp', hsame⟩ := h opened zs hs
  exact ⟨gap, ys, p', rfl, hgap, hp', hsame⟩

theorem array_spreads {items : List (Expr × List Lexeme)} (hx : x.token = .leftBracket)
    (hitems : ∀ i ∈ items, (Form.item i.1).Spreads i.2)
    (hys : Separated (items.map Prod.snd) ys) (hz : z.token = .rightBracket) :
    (Form.expr tight tight (.array (items.map Prod.fst) ⟨x.start, z.stop⟩)).Spreads
      (x :: (ys ++ [z])) := by
  refine spreads_cons fun y zs hy hs => ?_
  obtain ⟨items', ws, z', rfl, hz', hitems', hfst, hsep⟩ :=
    list_spreads (fun i hi => (hitems i hi).item) hys hs
  refine ⟨_, .array (hy.trans hx) hitems' hsep (hz'.trans hz), ?_⟩
  show Expr.array (Expr.placelessList _) .none = .array (Expr.placelessList _) .none
  rw [Expr.placelessList_eq, Expr.placelessList_eq, hfst]

theorem hash_spreads {items : List (Entry × List Lexeme)} (hx : x.token = .leftBrace)
    (hitems : ∀ i ∈ items, (Form.entry i.1).Spreads i.2)
    (hys : Separated (items.map Prod.snd) ys) (hz : z.token = .rightBrace) :
    (Form.expr tight tight (.hash (items.map Prod.fst) ⟨x.start, z.stop⟩)).Spreads
      (x :: (ys ++ [z])) := by
  refine spreads_cons fun y zs hy hs => ?_
  obtain ⟨items', ws, z', rfl, hz', hitems', hfst, hsep⟩ :=
    list_spreads (fun i hi => (hitems i hi).entry) hys hs
  refine ⟨_, .hash (hy.trans hx) hitems' hsep (hz'.trans hz), ?_⟩
  show Expr.hash (Entry.placelessList _) .none = .hash (Entry.placelessList _) .none
  rw [Entry.placelessList_eq, Entry.placelessList_eq, hfst]

theorem unary_spreads {op : UnaryOp} {head tail : Nat} {e : Expr} (hx : x.token.unaryOp? = some op)
    (hb : Blanks bs) (he : (Form.expr head tail e).Spreads xs)
    (hhead : Precedence.unary.rank < head) (htail : Precedence.unary.rank ≤ tail) :
    (Form.expr tight Precedence.unary.rank (.unary op e ⟨x.start, e.span.stop⟩)).Spreads
      (x :: (bs ++ xs)) := by
  refine spreads_cons fun y zs hy hs => ?_
  obtain ⟨us, _, rfl, hus, hrest⟩ := hs.split
  obtain ⟨gap, ys, rfl, hgap, -, e', he', hsame⟩ := he _ _ hrest
  rw [← List.append_assoc]
  refine ⟨_, .unary (by rw [hy]; exact hx) ((hus.blanks hb).append hgap) he' hhead htail, ?_⟩
  exact congrArg (Expr.unary op · .none) hsame

theorem binary_spreads {op : BinaryOp} {head tail head' tail' k : Nat} {l r : Expr}
    (hl : (Form.expr head tail l).Spreads xs) (hshut : Shut xs) (hhead : op.precedence.rank ≤ head)
    (htail : op.precedence.rank ≤ tail) (hx : x.token = .operator op) (hb : Blanks bs)
    (hr : (Form.expr head' tail' r).Spreads ys) (hhead' : op.rightPrecedence.rank < head')
    (hk : k ≤ op.rightPrecedence.rank) (hk' : k ≤ tail') :
    (Form.expr op.precedence.rank k (.binary l op r (l.span.merge r.span))).Spreads
      (xs ++ (x :: (bs ++ ys))) := by
  refine spreads_append hl hshut fun us vs hus hvs => ?_
  obtain ⟨l', hl', hsame⟩ := hus
  obtain ⟨y, _, rfl, hy, hrest⟩ := hvs.head (by rw [hx]; rfl)
  obtain ⟨bs', _, rfl, hbs', hrest⟩ := hrest.split
  obtain ⟨gap, ys', rfl, hgap, -, r', hr', hsame'⟩ := hr _ _ hrest
  rw [← List.append_assoc]
  refine ⟨_, .binary hl' hhead htail (hy.trans hx) ((hbs'.blanks hb).append hgap) hr' hhead' hk hk',
    ?_⟩
  exact congrArg₂ (Expr.binary · op · .none) hsame hsame'

/-- A condition and the block behind it. -/
theorem condition_spreads {c : Expr} {b : Block} (hc : (Form.whole c).Spreads xs) (hxs : Shut xs)
    (hb : (Form.block b).Spreads ys) (hys : closesNext ys = false)
    (hs : Spaced opened (xs ++ ys) zs) :
    ∃ c' b' us vs, zs = us ++ vs ∧ Written (.whole c') us ∧ Written (.block b') vs ∧
      c'.placeless = c.placeless ∧ b'.placeless = b.placeless := by
  obtain ⟨us, vs, rfl, hus, hvs⟩ := hs.split
  rw [hxs.2] at hvs
  obtain ⟨c', hc', hsame⟩ := hc.whole hus
  obtain ⟨b', hb', hsame'⟩ := hb.tight hvs rfl hys
  exact ⟨c', b', us, vs, rfl, hc', hb', hsame, hsame'⟩

theorem cond_spreads {c : Expr} {b : Block} (hx : x.token = .kwIf) (hc : (Form.whole c).Spreads xs)
    (hxs : Shut xs) (hb : (Form.block b).Spreads ys) (hys : closesNext ys = false) :
    (Form.expr tight tight (.cond c b none ⟨x.start, b.span.stop⟩)).Spreads (x :: (xs ++ ys)) := by
  refine spreads_cons fun y zs hy hs => ?_
  obtain ⟨c', b', us, vs, rfl, hc', hb', hsame, hsame'⟩ := condition_spreads hc hxs hb hys hs
  refine ⟨_, .cond (hy.trans hx) hc' hb', ?_⟩
  exact congrArg₂ (Expr.cond · · none .none) hsame hsame'

theorem loop_spreads {c : Expr} {b : Block} (hx : x.token = .kwWhile)
    (hc : (Form.whole c).Spreads xs) (hxs : Shut xs) (hb : (Form.block b).Spreads ys)
    (hys : closesNext ys = false) :
    (Form.expr tight tight (.loop c b ⟨x.start, b.span.stop⟩)).Spreads (x :: (xs ++ ys)) := by
  refine spreads_cons fun y zs hy hs => ?_
  obtain ⟨c', b', us, vs, rfl, hc', hb', hsame, hsame'⟩ := condition_spreads hc hxs hb hys hs
  refine ⟨_, .loop (hy.trans hx) hc' hb', ?_⟩
  exact congrArg₂ (Expr.loop · · .none) hsame hsame'

theorem condElse_spreads {c : Expr} {b b' : Block} (hx : x.token = .kwIf)
    (hc : (Form.whole c).Spreads xs) (hxs : Shut xs) (hb : (Form.block b).Spreads ys)
    (hys : closesNext ys = false) (hys' : Shut ys) (hy : y.token = .kwElse)
    (hb' : (Form.block b').Spreads zs) (hzs : closesNext zs = false) :
    (Form.expr tight tight (.cond c b (some b') ⟨x.start, b'.span.stop⟩)).Spreads
      (x :: (xs ++ (ys ++ y :: zs))) := by
  refine spreads_cons fun w ws hw hs => ?_
  rw [← List.append_assoc] at hs
  obtain ⟨_, vs, rfl, hus, hvs⟩ := hs.split
  obtain ⟨d, b₁, us, us', rfl, hd, hb₁, hsame, hsame₁⟩ := condition_spreads hc hxs hb hys hus
  rw [(hys'.append xs).2] at hvs
  obtain ⟨y', vs, rfl, hy', hvs⟩ := hvs.head (by rw [hy]; rfl)
  obtain ⟨b₂, hb₂, hsame₂⟩ := hb'.tight hvs (by rw [hy]; rfl) hzs
  rw [List.append_assoc]
  refine ⟨_, .condElse (hw.trans hx) hd hb₁ (hy'.trans hy) hb₂, ?_⟩
  show Expr.cond _ _ (some _) .none = .cond _ _ (some _) .none
  rw [hsame, hsame₁, hsame₂]

theorem Lexeme.name?_eq_some {w : Lexeme} {id : Ident} (h : w.name? = some id) :
    ∃ text, w.token = .ident text ∧ id = ⟨text, w.span⟩ := by
  unfold Lexeme.name? at h
  split at h
  · next text htext =>
    cases h
    exact ⟨text, htext, rfl⟩
  · cases h

theorem Lexeme.name?_of_ident {w : Lexeme} {text : String} (h : w.token = .ident text) :
    w.name? = some ⟨text, w.span⟩ := by
  unfold Lexeme.name?
  rw [h]

/-- A name stays the same up to its place. -/
theorem name_spreads {id : Ident} (h : ∃ w : Lexeme, xs = [w] ∧ w.name? = some id) :
    ItemSpreads (fun id xs => ∃ w : Lexeme, xs = [w] ∧ w.name? = some id) Ident.normal id xs := by
  intro opened zs hs
  obtain ⟨w, rfl, hw⟩ := h
  obtain ⟨gap, y, rfl, hgap, hy⟩ := hs.single
  obtain ⟨text, htext, rfl⟩ := Lexeme.name?_eq_some hw
  exact ⟨gap, [y], _, rfl, hgap, ⟨y, rfl, Lexeme.name?_of_ident (hy.trans htext)⟩, rfl⟩

theorem func_spreads {names : List (Ident × List Lexeme)} {b : Block} (hx : x.token = .kwFn)
    (hy : y.token = .leftParen)
    (hnames : ∀ i ∈ names, ∃ w : Lexeme, i.2 = [w] ∧ w.name? = some i.1)
    (hys : Separated (names.map Prod.snd) ys) (hz : z.token = .rightParen)
    (hb : (Form.block b).Spreads zs) (hzs : closesNext zs = false) :
    (Form.expr tight tight (.func (names.map Prod.fst) b ⟨x.start, b.span.stop⟩)).Spreads
      (x :: y :: (ys ++ [z] ++ zs)) := by
  refine spreads_cons fun w ws hw hs => ?_
  obtain ⟨y', _, rfl, hy', hs⟩ := hs.head (by rw [hx, hy]; rfl)
  obtain ⟨_, vs, rfl, hus, hvs⟩ := hs.split
  obtain ⟨names', us, z', rfl, hz', hnames', hfst, hsep⟩ :=
    list_spreads (fun i hi => name_spreads (hnames i hi)) hys hus
  have hshut : Shut (ys ++ [z]) := (shut_single hz rfl).append ys
  rw [hshut.2] at hvs
  obtain ⟨b', hb', hsame⟩ := hb.tight hvs rfl hzs
  refine ⟨_, .func (hw.trans hx) (hy'.trans hy) hnames' hsep (hz'.trans hz) hb', ?_⟩
  exact congrArg₂ (Expr.func · · .none) hfst hsame

theorem call_spreads {f : Expr} {items : List (Expr × List Lexeme)}
    (hf : (Form.expr tight tight f).Spreads xs) (hshut : Shut xs) (hx : x.token = .leftParen)
    (hitems : ∀ i ∈ items, (Form.item i.1).Spreads i.2) (hys : Separated (items.map Prod.snd) ys)
    (hz : z.token = .rightParen) :
    (Form.expr tight tight (.call f (items.map Prod.fst) ⟨f.span.start, z.stop⟩)).Spreads
      (xs ++ x :: (ys ++ [z])) := by
  refine spreads_append hf hshut fun us vs hus hvs => ?_
  obtain ⟨f', hf', hsame⟩ := hus
  obtain ⟨x', _, rfl, hx', hrest⟩ := hvs.head (by rw [hx]; rfl)
  obtain ⟨items', ws, z', rfl, hz', hitems', hfst, hsep⟩ :=
    list_spreads (fun i hi => (hitems i hi).item) hys hrest
  refine ⟨_, .call hf' (hx'.trans hx) hitems' hsep (hz'.trans hz), ?_⟩
  show Expr.call _ (Expr.placelessList _) .none = .call _ (Expr.placelessList _) .none
  rw [Expr.placelessList_eq, Expr.placelessList_eq, hsame, hfst]

theorem index_spreads {e i : Expr} (he : (Form.expr tight tight e).Spreads xs) (hshut : Shut xs)
    (hx : x.token = .leftBracket) (hi : (Form.whole i).Spreads ys) (hb : Blanks bs)
    (hz : z.token = .rightBracket) :
    (Form.expr tight tight (.index e i ⟨e.span.start, z.stop⟩)).Spreads
      (xs ++ x :: (ys ++ (bs ++ [z]))) := by
  refine spreads_append he hshut fun us vs hus hvs => ?_
  obtain ⟨e', he', hsame⟩ := hus
  obtain ⟨x', _, rfl, hx', hrest⟩ := hvs.head (by rw [hx]; rfl)
  obtain ⟨ys', _, rfl, hys', hclose⟩ := hrest.split
  obtain ⟨i', hi', hsame'⟩ := hi.whole hys'
  obtain ⟨bs', z', rfl, hb', hz'⟩ := hclose.closing hb
  refine ⟨_, .index he' (hx'.trans hx) hi' hb' (hz'.trans hz), ?_⟩
  exact congrArg₂ (Expr.index · · .none) hsame hsame'

theorem item_spreads {head tail : Nat} {e : Expr} (h : (Form.expr head tail e).Spreads xs)
    (hhead : 0 < head) : (Form.item e).Spreads xs := by
  intro opened zs hs
  obtain ⟨gap, ys, rfl, hgap, hmay, e', he', hsame⟩ := h opened zs hs
  exact ⟨gap, ys, rfl, hgap, hmay, e', .item he' hhead, hsame⟩

theorem whole_spreads {e : Expr} (hb : Blanks bs) (h : (Form.item e).Spreads xs) :
    (Form.whole e).Spreads (bs ++ xs) := by
  intro opened zs hs
  cases bs with
  | nil =>
    obtain ⟨gap, ys, rfl, hgap, hmay, e', he', hsame⟩ := h opened zs hs
    exact ⟨gap, ys, rfl, hgap, hmay, e', .whole blanks_nil he', hsame⟩
  | cons x bs =>
    refine spreads_cons (fun y ys hy hs => ?_) opened zs hs
    obtain ⟨us, _, rfl, hus, hrest⟩ := hs.split
    obtain ⟨gap, ys, rfl, hgap, -, e', he', hsame⟩ := h _ _ hrest
    have hy : y.token = .blankLine := hy.trans (hb x List.mem_cons_self)
    have hus := hus.blanks fun z hz => hb z (List.mem_cons_of_mem x hz)
    rw [← List.append_assoc]
    exact ⟨e', .whole (List.forall_mem_cons.mpr ⟨hy, hus.append hgap⟩) he', hsame⟩

theorem entry_spreads {key value : Expr} (hk : (Form.item key).Spreads xs) (hshut : Shut xs)
    (hb : Blanks bs) (hx : x.token = .colon) (hv : (Form.whole value).Spreads ys) :
    (Form.entry ⟨key, value⟩).Spreads (xs ++ (bs ++ x :: ys)) := by
  refine spreads_append hk hshut fun us vs hus hvs => ?_
  obtain ⟨key', hkey', hsame⟩ := hus
  obtain ⟨bs', _, rfl, hbs', hrest⟩ := hvs.split
  obtain ⟨gap, x', ys', rfl, hgap, hx', hrest⟩ := hrest.uncons
  obtain ⟨value', hvalue', hsame'⟩ := hv.whole hrest
  rw [← List.append_assoc bs']
  refine ⟨_, .entry hkey' ((hbs'.blanks hb).append hgap) (hx'.trans hx) hvalue', ?_⟩
  exact congrArg₂ Entry.mk hsame hsame'

theorem block_spreads {ss : List Stmt} (hx : x.token = .leftBrace)
    (h : (Form.statements ss).Spreads xs) (hxs : closesNext xs = false)
    (hshut : opensLast false xs = false) (hz : z.token = .rightBrace) :
    (Form.block ⟨ss, ⟨x.start, z.stop⟩⟩).Spreads (x :: (xs ++ [z])) := by
  refine spreads_cons fun y zs hy hs => ?_
  rw [hx] at hs
  obtain ⟨us, _, rfl, hus, hclose⟩ := hs.split
  obtain ⟨ss', hss', hsame⟩ := h.tight hus rfl hxs
  rw [show Token.opensGap .leftBrace = false from rfl, hshut] at hclose
  obtain ⟨z', _, rfl, hz', hnil⟩ := hclose.head (by rw [hz]; rfl)
  cases hnil
  refine ⟨_, .block (hy.trans hx) hss' (hz'.trans hz), ?_⟩
  exact congrArg (Block.mk · .none) hsame

/-! ### Statements -/

theorem bind_spreads {m : Lexeme} {id : Ident} {e : Expr} (hx : x.token = .kwLet)
    (hm : m.name? = some id) (hy : y.token = .operator .assign) (he : (Form.whole e).Spreads xs) :
    (Form.simple (.bind id e ⟨x.start, e.span.stop⟩)).Spreads (x :: m :: y :: xs) := by
  obtain ⟨text, htext, rfl⟩ := Lexeme.name?_eq_some hm
  refine spreads_cons fun x' zs hx' hs => ?_
  obtain ⟨m', _, rfl, hm', hs⟩ := hs.head (by rw [hx, htext]; rfl)
  obtain ⟨y', zs, rfl, hy', hs⟩ := hs.head (by rw [htext, hy]; rfl)
  obtain ⟨e', he', hsame⟩ := he.whole hs
  have hname := Lexeme.name?_of_ident (hm'.trans htext)
  refine ⟨_, .bind (hx'.trans hx) hname (hy'.trans hy) he', ?_⟩
  exact congrArg (Stmt.bind ⟨text, .none⟩ · .none) hsame

theorem ret_spreads {e : Expr} (hx : x.token = .kwReturn) (he : (Form.whole e).Spreads xs) :
    (Form.simple (.ret e ⟨x.start, e.span.stop⟩)).Spreads (x :: xs) := by
  refine spreads_cons fun x' zs hx' hs => ?_
  obtain ⟨e', he', hsame⟩ := he.whole hs
  refine ⟨_, .ret (hx'.trans hx) he', ?_⟩
  exact congrArg (Stmt.ret · .none) hsame

theorem exprStmt_spreads {e : Expr} (hx : x.token ≠ .leftBrace) (hw : Written (.item e) (x :: xs))
    (he : (Form.item e).Spreads (x :: xs)) : (Form.simple (.expr e)).Spreads (x :: xs) := by
  refine spreads_cons fun y ys hy hs => ?_
  have hspaced : Spaced false (x :: xs) ([] ++ y :: ys) :=
    .cons blanks_nil (fun h => absurd rfl h) hy hs
  obtain ⟨e', he', hsame⟩ := he.tight hspaced rfl hw.closesNext_eq
  refine ⟨_, .exprStmt (by rw [hy]; exact hx) he', ?_⟩
  exact congrArg Stmt.expr hsame

/-- Statements behind a token that opens no gap. -/
theorem statements_tight {ss : List Stmt} (h : (Form.statements ss).Spreads ys)
    (hw : Written (.statements ss) ys) (hs : Spaced false ys zs) :
    (Form.statements ss).Rewritten zs :=
  h.tight hs rfl hw.closesNext_eq

theorem nil_spreads : (Form.statements []).Spreads [] := by
  intro opened zs hs
  cases hs
  exact ⟨[], [], rfl, blanks_nil, fun h => absurd rfl h, [], .nil, rfl⟩

theorem semicolon_spreads {ss : List Stmt} (hx : x.token = .semicolon)
    (h : (Form.statements ss).Spreads xs) (hw : Written (.statements ss) xs) :
    (Form.statements ss).Spreads (x :: xs) := by
  refine spreads_cons fun y ys hy hs => ?_
  rw [hx] at hs
  obtain ⟨ss', hss', hsame⟩ := statements_tight h hw hs
  exact ⟨ss', .semicolon (hy.trans hx) hss', hsame⟩

theorem blank_spreads {ss : List Stmt} (hx : x.token = .blankLine)
    (h : (Form.statements ss).Spreads xs) (hw : Written (.statements ss) xs) :
    (Form.statements (.blank x.span :: ss)).Spreads (x :: xs) := by
  refine spreads_cons fun y ys hy hs => ?_
  rw [hx] at hs
  obtain ⟨ss', hss', hsame⟩ := statements_tight h hw hs
  refine ⟨_, .blank (hy.trans hx) hss', ?_⟩
  exact congrArg (Stmt.blank .none :: ·) hsame

theorem blockStmt_spreads {b : Block} {ss : List Stmt} (hb : (Form.block b).Spreads xs)
    (hshut : Shut xs) (h : (Form.statements ss).Spreads ys) (hw : Written (.statements ss) ys) :
    (Form.statements (.block b :: ss)).Spreads (xs ++ ys) := by
  refine spreads_append hb hshut fun us vs hus hvs => ?_
  obtain ⟨b', hb', hsame⟩ := hus
  obtain ⟨ss', hss', hsame'⟩ := statements_tight h hw hvs
  refine ⟨_, .blockStmt hb' hss', ?_⟩
  exact congrArg₂ (Stmt.block · :: ·) hsame hsame'

theorem ended_spreads {st : Stmt} {ss : List Stmt} (hst : (Form.simple st).Spreads xs)
    (hshut : Shut xs) (hx : x.token = .semicolon) (h : (Form.statements ss).Spreads ys)
    (hw : Written (.statements ss) ys) : (Form.statements (st :: ss)).Spreads (xs ++ x :: ys) := by
  refine spreads_append hst hshut fun us vs hus hvs => ?_
  obtain ⟨st', hst', hsame⟩ := hus
  obtain ⟨x', vs, rfl, hx', hvs⟩ := hvs.head (by rw [hx]; rfl)
  rw [hx] at hvs
  obtain ⟨ss', hss', hsame'⟩ := statements_tight h hw hvs
  refine ⟨_, .ended hst' (hx'.trans hx) hss', ?_⟩
  exact congrArg₂ List.cons hsame hsame'

theorem unended_spreads {st : Stmt} {ss : List Stmt} (hst : (Form.simple st).Spreads xs)
    (hshut : Shut xs) (hy : ∀ y ∈ ys.head?, Stops y.token) (h : (Form.statements ss).Spreads ys)
    (hw : Written (.statements ss) ys) : (Form.statements (st :: ss)).Spreads (xs ++ ys) := by
  refine spreads_append hst hshut fun us vs hus hvs => ?_
  obtain ⟨st', hst', hsame⟩ := hus
  obtain ⟨ss', hss', hsame'⟩ := statements_tight h hw hvs
  refine ⟨_, .unended hst' (fun z hz => ?_) hss', ?_⟩
  · -- the statements after it start with the same token
    cases ys with
    | nil =>
      cases hvs
      cases hz
    | cons y ys =>
      obtain ⟨z', zs, rfl, hz', -⟩ := hvs.head hw.closesNext_eq
      cases hz
      rw [hz']
      exact hy y rfl
  · exact congrArg₂ List.cons hsame hsame'

end Clauses

/-- What is written can be spaced. -/
theorem Written.spreads {f : Form} {xs : List Lexeme} (h : Written f xs) : f.Spreads xs := by
  induction h with
  | leaf h => exact leaf_spreads h
  | group hx _ hb hz ih => exact group_spreads hx ih hb hz
  | array hx _ hys hz ih => exact array_spreads hx ih hys hz
  | hash hx _ hys hz ih => exact hash_spreads hx ih hys hz
  | unary hx hb _ hhead htail ih => exact unary_spreads hx hb ih hhead htail
  | binary hl hhead htail hx hb _ hhead' hk hk' ihl ihr =>
    exact binary_spreads ihl hl.endsShut hhead htail hx hb ihr hhead' hk hk'
  | cond hx hc hb ihc ihb => exact cond_spreads hx ihc hc.endsShut ihb hb.closesNext_eq
  | condElse hx hc hb hy hb' ihc ihb ihb' =>
    exact condElse_spreads hx ihc hc.endsShut ihb hb.closesNext_eq hb.endsShut hy ihb'
      hb'.closesNext_eq
  | loop hx hc hb ihc ihb => exact loop_spreads hx ihc hc.endsShut ihb hb.closesNext_eq
  | func hx hy hnames hys hz hb ihb => exact func_spreads hx hy hnames hys hz ihb hb.closesNext_eq
  | call hf hx _ hys hz ihf ih => exact call_spreads ihf hf.endsShut hx ih hys hz
  | index he hx _ hb hz ihe ihi => exact index_spreads ihe he.endsShut hx ihi hb hz
  | item _ hhead ih => exact item_spreads ih hhead
  | whole hb _ ih => exact whole_spreads hb ih
  | entry hk hb hc _ ihk ihv => exact entry_spreads ihk hk.endsShut hb hc ihv
  | block hx h hz ih => exact block_spreads hx ih h.closesNext_eq h.endsShut hz
  | bind hx hn hy _ ih => exact bind_spreads hx hn hy ih
  | ret hx _ ih => exact ret_spreads hx ih
  | exprStmt hx he ih => exact exprStmt_spreads hx he ih
  | nil => exact nil_spreads
  | semicolon hx h ih => exact semicolon_spreads hx ih h
  | blank hx h ih => exact blank_spreads hx ih h
  | blockStmt hb h ihb ih => exact blockStmt_spreads ihb hb.endsShut ih h
  | ended hs hx h ihs ih => exact ended_spreads ihs hs.endsShut hx ih h
  | unended hs hy h ihs ih => exact unended_spreads ihs hs.endsShut hy ih h

/-! ## Whole programs -/

/-- Behind the end of the text nothing matters. -/
theorem EndsText.append_of_spaced {xs ys bs : List Lexeme} (h : EndsText xs)
    (hs : Spaced false xs ys) (hb : bs ≠ [] → opensLast false xs = true) : EndsText (ys ++ bs) := by
  cases xs with
  | nil =>
    cases hs
    cases bs with
    | nil => exact fun z hz => nomatch hz
    | cons b bs => cases hb (List.cons_ne_nil b bs)
  | cons x xs =>
    have hx : x.token = .eof := h x rfl
    obtain ⟨y, ys, rfl, hy, -⟩ := hs.head (by rw [hx]; rfl)
    intro z hz
    cases hz
    exact hy.trans hx

/-- Blank lines behind operators and other tokens that open a gap, and in front of those that close
    one, change a program without faults in its places alone. -/
theorem parseLexemes_padded {xs ys : List Lexeme} (h : Padded false xs ys)
    (hnone : (parseLexemes xs).errors = []) :
    (parseLexemes ys).errors = [] ∧
      (parseLexemes ys).program.placeless = (parseLexemes xs).program.placeless := by
  obtain ⟨us, vs, hxs, hends, hwritten⟩ := written_of_parseLexemes hnone
  obtain ⟨zs, bs, rfl, hspaced, hbs, hlast⟩ := h.spaced
  rw [hxs] at hspaced hlast
  obtain ⟨us', vs', rfl, hus, hvs⟩ := hspaced.split
  have hshut : opensLast false us = false := hwritten.endsShut
  rw [opensLast_append, hshut] at hlast
  rw [hshut] at hvs
  obtain ⟨ss, hss, hsame⟩ := statements_tight hwritten.spreads hwritten hus
  obtain ⟨hprogram, herrors⟩ := hss.parseLexemes_append (hends.append_of_spaced hvs hlast)
  rw [← List.append_assoc] at hprogram herrors
  refine ⟨herrors, ?_⟩
  unfold Program.placeless
  rw [hprogram, hsame]

/-- Behind a parenthesis, a comma and an operator, and in front of a comma and a parenthesis. -/
theorem parseLexemes_padded_call :
    Padded false (tokenize "f(a, -b)") (tokenize "f(\n\na\n\n,\n\n-\n\nb\n\n)") ∧
      (parseLexemes (tokenize "f(a, -b)")).errors = [] ∧
      (parseLexemes (tokenize "f(\n\na\n\n,\n\n-\n\nb\n\n)")).errors = [] ∧
      (parseLexemes (tokenize "f(\n\na\n\n,\n\n-\n\nb\n\n)")).program.placeless =
        (parseLexemes (tokenize "f(a, -b)")).program.placeless := by
  have hplain : tokenize "f(a, -b)" = [⟨0, .ident "f", 1⟩, ⟨1, .leftParen, 2⟩, ⟨2, .ident "a", 3⟩,
      ⟨3, .comma, 4⟩, ⟨5, .operator .sub, 6⟩, ⟨6, .ident "b", 7⟩, ⟨7, .rightParen, 8⟩,
      ⟨8, .eof, 8⟩] := by decide +kernel
  have hspaced : tokenize "f(\n\na\n\n,\n\n-\n\nb\n\n)" = [⟨0, .ident "f", 1⟩,
      ⟨1, .leftParen, 2⟩, ⟨2, .blankLine, 4⟩, ⟨4, .ident "a", 5⟩, ⟨5, .blankLine, 7⟩, ⟨7, .comma, 8⟩,
      ⟨8, .blankLine, 10⟩, ⟨10, .operator .sub, 11⟩, ⟨11, .blankLine, 13⟩, ⟨13, .ident "b", 14⟩,
      ⟨14, .blankLine, 16⟩, ⟨16, .rightParen, 17⟩, ⟨17, .eof, 17⟩] := by decide +kernel
  have hpadded : Padded false (tokenize "f(a, -b)") (tokenize "f(\n\na\n\n,\n\n-\n\nb\n\n)") := by
    rw [hplain, hspaced]
    refine .keep rfl (.keep rfl (.gap rfl rfl (.keep rfl (.gap rfl rfl (.keep rfl ?_)))))
    refine .gap rfl rfl (.keep rfl (.gap rfl rfl (.keep rfl (.gap rfl rfl (.keep rfl ?_)))))
    exact .keep rfl .nil
  have hnone : (parseLexemes (tokenize "f(a, -b)")).errors = [] := by decide +kernel
  obtain ⟨herrors, hsame⟩ := parseLexemes_padded hpadded hnone
  exact ⟨hpadded, hnone, herrors, hsame⟩

end Scriptlet
