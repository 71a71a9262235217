import Scriptlet.Proofs.Grammar.Settled
import Scriptlet.Proofs.Syntax.Nodes
import Scriptlet.Proofs.Token.Tiling

/-!
# `Proofs.Grammar.Placed` — the spans of a tree follow the text

A rule puts the nodes it makes between the place where it starts and the lexeme it leaves in front. So
what is read first stands to the left of what is read later, and a node that is made of both covers
both. Broken statements leave a gap; nothing that stays in the tree reaches into it.

## Contents
- `Span.Sound`, `Node.Sound`: a span of the text; a node whose children stand inside it, apart from each
  other and in order.
- `Row`: nodes from left to right between two positions. `Row.node` makes one node of them.
- `State.Laid`: the lexemes left lie in order behind the last one taken.
- `Rule.Lays`: what the rule gives stands between where it starts and where it leaves off;
  `Rule.Lays.bind` composes it. There is one lemma for each rule.
- `parse_placed`: every node of a program and every fault of its text has a span of the text.
-/

namespace Scriptlet

/-! ## Sound spans and nodes -/

/-- A span between two positions with a property, which may be empty. -/
structure Span.Sound (Ok : Nat → Prop) (s : Span) : Prop where
  ordered : s.start ≤ s.stop
  start : Ok s.start
  stop : Ok s.stop

/-- A node has a span of its own, empty only for a program, and its children stand inside of it and
    behind each other. -/
structure Node.Sound (Ok : Nat → Prop) (n : Node) : Prop where
  span : n.span.Sound Ok
  nonempty : n.place.kind ≠ .program → n.span.start < n.span.stop
  within : ∀ c ∈ n.children, c.span.Within n.span
  apart : n.children.Pairwise fun a b => a.span.stop ≤ b.span.start

/-- All nodes of a tree are sound. -/
def Node.AllSound (Ok : Nat → Prop) (n : Node) : Prop := ∀ m, Node.Under n m → m.Sound Ok

/-- A span that is not empty, somewhere between `lo` and `hi`. -/
structure Span.Between (Ok : Nat → Prop) (lo hi : Nat) (s : Span) : Prop where
  left : lo ≤ s.start
  nonempty : s.start < s.stop
  right : s.stop ≤ hi
  start : Ok s.start
  stop : Ok s.stop

theorem Span.Between.sound {Ok : Nat → Prop} {lo hi : Nat} {s : Span} (h : s.Between Ok lo hi) :
    s.Sound Ok :=
  ⟨Nat.le_of_lt h.nonempty, h.start, h.stop⟩

/-! ## Rows of nodes -/

/-- Trees of sound nodes that stand from left to right between `lo` and `hi`. -/
def Row (Ok : Nat → Prop) : Nat → Nat → List Node → Prop
  | lo, hi, [] => lo ≤ hi
  | lo, hi, n :: ns =>
    n.AllSound Ok ∧ lo ≤ n.span.start ∧ n.span.start < n.span.stop ∧ Row Ok n.span.stop hi ns

namespace Row

variable {Ok : Nat → Prop} {lo mid hi : Nat} {n : Node} {ns ms : List Node}

theorem nil (h : lo ≤ hi) : Row Ok lo hi [] := h

theorem le (h : Row Ok lo hi ns) : lo ≤ hi := by
  induction ns generalizing lo with
  | nil => exact h
  | cons n ns ih =>
    obtain ⟨-, hleft, hne, hmore⟩ := h
    have := ih hmore
    omega

theorem append (h : Row Ok lo mid ns) (h' : Row Ok mid hi ms) : Row Ok lo hi (ns ++ ms) := by
  induction ns generalizing lo with
  | nil =>
    cases ms with
    | nil => exact Nat.le_trans h h'
    | cons m ms =>
      obtain ⟨hall, hleft, hne, hmore⟩ := h'
      exact ⟨hall, Nat.le_trans h hleft, hne, hmore⟩
  | cons n ns ih =>
    obtain ⟨hall, hleft, hne, hmore⟩ := h
    exact ⟨hall, hleft, hne, ih hmore⟩

/-- A row has room to spare on both sides. -/
theorem widen {lo' hi' : Nat} (h : Row Ok lo hi ns) (hlo : lo' ≤ lo) (hhi : hi ≤ hi') :
    Row Ok lo' hi' ns := by
  have hleft : Row Ok lo' lo [] := nil hlo
  have hright : Row Ok hi hi' [] := nil hhi
  have hrow := (hleft.append h).append hright
  rwa [List.nil_append, List.append_nil] at hrow

theorem single_iff : Row Ok lo hi [n] ↔
    n.AllSound Ok ∧ lo ≤ n.span.start ∧ n.span.start < n.span.stop ∧ n.span.stop ≤ hi :=
  Iff.rfl

/-- A single node between two positions has a span between them. -/
theorem between (h : Row Ok lo hi [n]) : n.span.Between Ok lo hi := by
  obtain ⟨hall, hleft, hne, hright⟩ := single_iff.mp h
  have hsound := (hall n (.refl n)).span
  exact ⟨hleft, hne, hright, hsound.start, hsound.stop⟩

/-- The end of a node is room enough for it. -/
theorem tighten (h : Row Ok lo hi [n]) : Row Ok lo n.span.stop [n] := by
  obtain ⟨hall, hleft, hne, -⟩ := single_iff.mp h
  exact single_iff.mpr ⟨hall, hleft, hne, Nat.le_refl _⟩

/-- Its start is, too. -/
theorem tighten_start (h : Row Ok lo hi [n]) : Row Ok n.span.start hi [n] := by
  obtain ⟨hall, -, hne, hright⟩ := single_iff.mp h
  exact single_iff.mpr ⟨hall, Nat.le_refl _, hne, hright⟩

theorem allSound (h : Row Ok lo hi ns) : ∀ c ∈ ns, c.AllSound Ok := by
  induction ns generalizing lo with
  | nil => intro c hc; cases hc
  | cons n ns ih =>
    obtain ⟨hall, -, -, hmore⟩ := h
    exact List.forall_mem_cons.mpr ⟨hall, ih hmore⟩

theorem bounds (h : Row Ok lo hi ns) : ∀ c ∈ ns, lo ≤ c.span.start ∧ c.span.stop ≤ hi := by
  induction ns generalizing lo with
  | nil => intro c hc; cases hc
  | cons n ns ih =>
    obtain ⟨-, hleft, hne, hmore⟩ := h
    refine List.forall_mem_cons.mpr ⟨⟨hleft, hmore.le⟩, fun c hc => ?_⟩
    have := ih hmore c hc
    omega

theorem apart (h : Row Ok lo hi ns) : ns.Pairwise fun a b => a.span.stop ≤ b.span.start := by
  induction ns generalizing lo with
  | nil => exact .nil
  | cons n ns ih =>
    obtain ⟨-, -, -, hmore⟩ := h
    exact .cons (fun c hc => (hmore.bounds c hc).1) (ih hmore)

/-- A node whose children stand in a row inside of it is the root of a sound tree. -/
theorem root (h : Row Ok lo hi n.children) (hspan : n.span.Sound Ok) (hlo : n.span.start ≤ lo)
    (hhi : hi ≤ n.span.stop) (hne : n.place.kind ≠ .program → n.span.start < n.span.stop) :
    n.AllSound Ok := by
  refine Node.Under.forall_iff.mpr ⟨⟨hspan, hne, fun c hc => ?_, h.apart⟩, h.allSound⟩
  have hbounds := h.bounds c hc
  exact ⟨Nat.le_trans hlo hbounds.1, Nat.le_trans hbounds.2 hhi⟩

/-- A node whose children stand in a row inside of it, somewhere between two positions. -/
theorem node {lo' hi' : Nat} (h : Row Ok lo' hi' n.children) (hspan : n.span.Between Ok lo hi)
    (hlo : n.span.start ≤ lo') (hhi : hi' ≤ n.span.stop) : Row Ok lo hi [n] :=
  single_iff.mpr ⟨h.root hspan.sound hlo hhi fun _ => hspan.nonempty, hspan.left, hspan.nonempty,
    hspan.right⟩

/-- A node without children. -/
theorem leaf (hspan : n.span.Between Ok lo hi) (hn : n.children = []) : Row Ok lo hi [n] := by
  have hrow : Row Ok n.span.start n.span.stop n.children := by
    rw [hn]
    exact nil (Nat.le_of_lt hspan.nonempty)
  exact hrow.node hspan (Nat.le_refl _) (Nat.le_refl _)

/-- A node that ends where the row of its children does. -/
theorem spanning {start stop : Nat} (h : Row Ok mid stop n.children) (hspan : n.span = ⟨start, stop⟩)
    (hbetween : Span.Between Ok lo hi ⟨start, stop⟩) (hle : start ≤ mid) : Row Ok lo hi [n] := by
  have hstart : n.span.start = start := congrArg Span.start hspan
  have hstop : n.span.stop = stop := congrArg Span.stop hspan
  rw [← hspan] at hbetween
  exact h.node hbetween (by omega) (by omega)

/-- A node that starts with a lexeme and ends where its last child or its closing lexeme does. -/
theorem opened {opening : Span} {stop : Nat} (hopening : opening.Between Ok lo mid)
    (h : Row Ok mid stop n.children) (hspan : n.span = ⟨opening.start, stop⟩) (hstop : Ok stop)
    (hhi : stop ≤ hi) : Row Ok lo hi [n] := by
  obtain ⟨hleft, hne, hright, hstart, -⟩ := hopening
  have hle := h.le
  have hlt : opening.start < stop := by omega
  exact h.spanning hspan ⟨hleft, hlt, hhi, hstart, hstop⟩ (by omega)

/-- A node that starts with its first child, which has been read before. -/
theorem extended {first : Node} {stop : Nat} (hfirst : Row Ok lo mid [first])
    (h : Row Ok mid stop ns) (hchildren : n.children = first :: ns)
    (hspan : n.span = ⟨first.span.start, stop⟩) (hstop : Ok stop) (hhi : stop ≤ hi) :
    Row Ok lo hi [n] := by
  have hrow : Row Ok first.span.start stop n.children := by
    rw [hchildren]
    exact hfirst.tighten_start.append h
  obtain ⟨hleft, hne, hright, hstart, -⟩ := hfirst.between
  have hle := h.le
  have hlt : first.span.start < stop := by omega
  exact hrow.spanning hspan ⟨hleft, hlt, hhi, hstart, hstop⟩ (Nat.le_refl _)

/-- Another node with the same span and the same children can stand in the place of one. -/
theorem replace {m : Node} (h : Row Ok lo hi [n]) (hspan : m.span = n.span)
    (hchildren : m.children = n.children) : Row Ok lo hi [m] := by
  have hbetween := h.between
  obtain ⟨hall, -, -, -⟩ := single_iff.mp h
  obtain ⟨hsound, hbelow⟩ := Node.Under.forall_iff.mp hall
  rw [← hspan] at hbetween
  refine single_iff.mpr ⟨Node.Under.forall_iff.mpr ⟨⟨hbetween.sound, fun _ => hbetween.nonempty, ?_, ?_⟩,
    ?_⟩, hbetween.left, hbetween.nonempty, hbetween.right⟩
  · rw [hchildren, hspan]
    exact hsound.within
  · rw [hchildren]
    exact hsound.apart
  · rw [hchildren]
    exact hbelow

end Row

/-! ## States over a text -/

namespace State

variable {Ok : Nat → Prop} {s t : State}

/-- The position of the lexeme in front. -/
def here (s : State) : Nat := s.current.start

/-- The lexemes left lie in order behind the last one taken, and the faults noted have spans of the
    text. -/
structure Laid (Ok : Nat → Prop) (s : State) : Prop where
  rest : Ordered Ok s.stop s.rest
  stop : Ok s.stop
  errors : ∀ e ∈ s.errors, e.span.Sound Ok

theorem Laid.current (h : s.Laid Ok) : s.current.span.Sound Ok := by
  obtain ⟨rest, stop, errors⟩ := s
  cases rest with
  | nil => exact ⟨Nat.le_refl _, h.stop, h.stop⟩
  | cons x xs =>
    obtain ⟨-, hle, -, hstart, hstop, -⟩ := h.rest
    exact ⟨hle, hstart, hstop⟩

theorem Laid.current_nonempty (h : s.Laid Ok) (hne : s.current.token ≠ .eof) :
    s.here < s.current.stop := by
  obtain ⟨rest, stop, errors⟩ := s
  cases rest with
  | nil => exact absurd rfl hne
  | cons x xs => exact h.rest.2.2.1 hne

theorem Laid.stop_le_here (h : s.Laid Ok) : s.stop ≤ s.here := by
  obtain ⟨rest, stop, errors⟩ := s
  cases rest with
  | nil => exact Nat.le_refl _
  | cons x xs => exact h.rest.1

theorem Laid.step (h : s.Laid Ok) : s.step.Laid Ok := by
  obtain ⟨rest, stop, errors⟩ := s
  cases rest with
  | nil => exact h
  | cons x xs =>
    obtain ⟨-, -, -, -, hstop, hmore⟩ := h.rest
    exact ⟨hmore, hstop, h.errors⟩

/-- What comes next stands behind the lexeme in front. -/
theorem Laid.stop_le_step (h : s.Laid Ok) : s.current.stop ≤ s.step.here := by
  have hle := h.step.stop_le_here
  obtain ⟨rest, stop, errors⟩ := s
  cases rest with
  | nil => exact Nat.le_refl _
  | cons x xs => exact hle

theorem Laid.note (h : s.Laid Ok) {e : SyntaxError} (he : e.span.Sound Ok) : (s.note e).Laid Ok := by
  refine ⟨h.rest, h.stop, fun e' he' => ?_⟩
  rcases List.mem_append.mp he' with he' | he'
  · exact h.errors e' he'
  · rw [List.mem_singleton.mp he']
    exact he

theorem ordered_drop {p : Nat} {xs ys : List Lexeme} (h : Ordered Ok p (xs ++ ys)) (hp : Ok p) :
    Ordered Ok (lastStop p xs) ys ∧ Ok (lastStop p xs) ∧ p ≤ lastStop p xs := by
  induction xs generalizing p with
  | nil => exact ⟨h, hp, Nat.le_refl _⟩
  | cons x xs ih =>
    obtain ⟨hleft, hle, -, -, hstop, hmore⟩ := h
    obtain ⟨hordered, hlast, hless⟩ := ih hmore hstop
    rw [lastStop_cons]
    exact ⟨hordered, hlast, by omega⟩

/-- Lexemes may be passed. -/
theorem Laid.move {k : Nat} (h : s.Laid Ok) (hst : s.Leads k t) (he : t.errors = s.errors) :
    t.Laid Ok ∧ s.here ≤ t.here := by
  obtain ⟨xs, hrest, hstop, -, -, -⟩ := hst
  have hordered := h.rest
  rw [hrest] at hordered
  obtain ⟨hmore, hlast, -⟩ := ordered_drop hordered h.stop
  have ht : t.Laid Ok := ⟨hstop ▸ hmore, hstop ▸ hlast, he ▸ h.errors⟩
  refine ⟨ht, ?_⟩
  cases xs with
  | nil =>
    -- the end of a text has its place from the lexeme before it
    have hsame : s.current = t.current := by
      unfold State.current
      rw [hrest, hstop]
      rfl
    exact Nat.le_of_eq (congrArg Lexeme.start hsame)
  | cons x xs =>
    have hfront : s.here = x.start := by
      unfold here State.current
      rw [hrest]
      rfl
    obtain ⟨-, hle, -, -, hok, hafter⟩ := hordered
    obtain ⟨-, -, hless⟩ := ordered_drop hafter hok
    have hleft := ht.stop_le_here
    rw [hstop, lastStop_cons] at hleft
    omega

theorem Laid.skipBlankLines (h : s.Laid Ok) :
    s.skipBlankLines.Laid Ok ∧ s.here ≤ s.skipBlankLines.here :=
  h.move (skipBlankLines_leads s) rfl

theorem Laid.recover (h : s.Laid Ok) (inBlock : Bool) :
    (s.recover inBlock).Laid Ok ∧ s.here ≤ (s.recover inBlock).here :=
  h.move (recover_leads_zero inBlock s) rfl

end State

/-! ## Rules that follow the text -/

/-- The reply leaves a state that lies at `lo` or behind it, with a result that has the property `Q` of
    the position there, or with a fault that has a span of the text. -/
def Reply.Lays {α : Type} (Ok : Nat → Prop) (lo : Nat) (Q : Nat → α → Prop) : Reply α → Prop
  | .ok a t => t.Laid Ok ∧ lo ≤ t.here ∧ Q t.here a
  | .error e t => t.Laid Ok ∧ lo ≤ t.here ∧ e.span.Sound Ok
  | .starved => True

/-- A reply that follows the text from some place on follows it from any place before. -/
theorem Reply.Lays.after {α : Type} {Ok : Nat → Prop} {lo mid : Nat} {Q : Nat → α → Prop}
    {r : Reply α} (h : r.Lays Ok mid Q) (hle : lo ≤ mid) : r.Lays Ok lo Q := by
  cases r with
  | ok a t => exact ⟨h.1, Nat.le_trans hle h.2.1, h.2.2⟩
  | error e t => exact ⟨h.1, Nat.le_trans hle h.2.1, h.2.2⟩
  | starved => trivial

/-- From the state `s` the rule gives a reply that follows the text from `lo` on. -/
def Rule.LaysAt {α : Type} (Ok : Nat → Prop) (lo : Nat) (Q : Nat → α → Prop) (s : State)
    (r : Rule α) : Prop :=
  (r s).Lays Ok lo Q

/-- From any state that lies at `lo` or behind it the rule follows the text. -/
def Rule.Lays {α : Type} (Ok : Nat → Prop) (lo : Nat) (Q : Nat → α → Prop) (r : Rule α) : Prop :=
  ∀ s : State, s.Laid Ok → lo ≤ s.here → r.LaysAt Ok lo Q s

/-- Wherever it starts the rule puts the nodes of its result in a row. -/
def Rule.Rows {α : Type} (Ok : Nat → Prop) (nodes : α → List Node) (r : Rule α) : Prop :=
  ∀ lo, r.Lays Ok lo fun hi a => Row Ok lo hi (nodes a)

namespace Rule

variable {α β : Type} {Ok : Nat → Prop} {lo : Nat} {Q : Nat → α → Prop} {R : Nat → β → Prop}

theorem LaysAt.bind {r : Rule α} {f : α → Rule β} {s : State} (h : r.LaysAt Ok lo Q s)
    (hf : ∀ a mid, lo ≤ mid → Q mid a → (f a).Lays Ok mid R) : (r >>= f).LaysAt Ok lo R s := by
  unfold LaysAt at h ⊢
  rw [bind_apply]
  cases hr : r s with
  | ok a t =>
    rw [hr] at h
    obtain ⟨ht, hle, hQ⟩ := h
    exact Reply.Lays.after (hf a t.here hle hQ t ht (Nat.le_refl _)) hle
  | error e t =>
    rw [hr] at h
    exact h
  | starved => trivial

theorem Lays.bind {r : Rule α} {f : α → Rule β} (h : r.Lays Ok lo Q)
    (hf : ∀ a mid, lo ≤ mid → Q mid a → (f a).Lays Ok mid R) : (r >>= f).Lays Ok lo R :=
  fun s hs hlo => (h s hs hlo).bind hf

theorem lays_pure {a : α} (h : ∀ hi, lo ≤ hi → Q hi a) : (pure a : Rule α).Lays Ok lo Q :=
  fun _ hs hlo => ⟨hs, hlo, h _ hlo⟩

theorem lays_starve : (starve : Rule α).Lays Ok lo Q := fun _ _ _ => trivial

theorem fail_laysAt {s : State} (hs : s.Laid Ok) (hlo : lo ≤ s.here) (fault : Fault) {span : Span}
    (h : span.Sound Ok) : (fail fault span : Rule α).LaysAt Ok lo Q s :=
  ⟨hs, hlo, h⟩

theorem lays_fail (fault : Fault) {span : Span} (h : span.Sound Ok) :
    (fail fault span : Rule α).Lays Ok lo Q :=
  fun _ hs hlo => fail_laysAt hs hlo fault h

/-! ### Single lexemes -/

theorem lays_look {f : Lexeme → Rule β}
    (hf : ∀ s : State, s.Laid Ok → lo ≤ s.here → (f s.current).LaysAt Ok lo R s) :
    (look >>= f).Lays Ok lo R :=
  hf

/-- What follows a lexeme stands behind it. -/
theorem take_laysAt {f : Lexeme → Rule β} {s : State} (hs : s.Laid Ok) (hlo : lo ≤ s.here)
    (hf : ∀ mid, s.current.stop ≤ mid → (f s.current).Lays Ok mid R) :
    (take >>= f).LaysAt Ok lo R s := by
  have hcurrent := hs.current.ordered
  have hstep := hs.stop_le_step
  have htake : Reply.Lays Ok lo (fun mid x => s.current.stop ≤ mid ∧ x = s.current) (take s) :=
    ⟨hs.step, by unfold State.here at hlo ⊢; exact Nat.le_trans hlo (Nat.le_trans hcurrent hstep),
      hstep, rfl⟩
  refine LaysAt.bind htake fun x mid _ hx => ?_
  rw [hx.2]
  exact hf mid hx.1

theorem lays_skipBlankLines : skipBlankLines.Lays Ok lo fun _ _ => True := by
  intro s hs hlo
  obtain ⟨ht, hle⟩ := hs.skipBlankLines
  exact ⟨ht, Nat.le_trans hlo hle, trivial⟩

/-- A lexeme that is not the end of the text has a span that is not empty. -/
theorem between_current {s : State} (hs : s.Laid Ok) (hlo : lo ≤ s.here)
    (hne : s.current.token ≠ .eof) {mid : Nat} (hmid : s.current.stop ≤ mid) :
    s.current.span.Between Ok lo mid :=
  ⟨hlo, hs.current_nonempty hne, hmid, hs.current.start, hs.current.stop⟩

theorem lays_expect {t : Token} (ht : t ≠ .eof) :
    (expect t).Lays Ok lo fun mid span => span.Between Ok lo mid := by
  intro s hs hlo
  unfold LaysAt expect
  split
  · next hc =>
    have hspan := between_current hs hlo (ne_eof_of_currentIs ht hc) hs.stop_le_step
    exact ⟨hs.step, Nat.le_trans hspan.left (Nat.le_trans (Nat.le_of_lt hspan.nonempty) hspan.right),
      hspan⟩
  · exact ⟨hs, hlo, hs.current⟩

theorem lays_skipOptional (t : Token) : (skipOptional t).Lays Ok lo fun _ _ => True := by
  intro s hs hlo
  show Reply.Lays Ok lo _ (.ok () (if s.currentIs t then s.step else s))
  split
  · have hcurrent := hs.current.ordered
    have hstep := hs.stop_le_step
    exact ⟨hs.step, Nat.le_trans hlo (Nat.le_trans hcurrent hstep), trivial⟩
  · exact ⟨hs, hlo, trivial⟩

/-! ### Lists -/

variable {nodes : α → List Node}

theorem moreItems_rows {item : Rule α} (hi : item.Rows Ok nodes) (b : Nat) :
    (moreItems item b).Rows Ok fun as => as.flatMap nodes := by
  induction b with
  | zero => exact fun lo => lays_starve
  | succ b ih =>
    intro lo
    unfold moreItems
    refine lays_skipBlankLines.bind fun _ m₁ h₁ _ => lays_look fun s hs hlo => ?_
    split
    · refine take_laysAt hs hlo fun m₂ h₂ => ?_
      refine lays_skipBlankLines.bind fun _ m₃ h₃ _ => (hi m₃).bind fun first m₄ h₄ hfirst => ?_
      refine (ih m₄).bind fun others m₅ h₅ hothers => lays_pure fun hi hhi => ?_
      have hrow : Row Ok m₃ m₅ (nodes first ++ others.flatMap nodes) := hfirst.append hothers
      have hcurrent : s.here ≤ s.current.stop := hs.current.ordered
      exact hrow.widen (by omega) hhi
    · exact lays_pure (fun hi hhi => Row.nil (Nat.le_trans h₁ hhi)) s hs hlo

/-- Items stand in a row in front of the closing token, whose end is given with them. -/
theorem lays_listOf {close : Token} (hc : close ≠ .eof) {item : Rule α} (hi : item.Rows Ok nodes)
    (b : Nat) : (listOf close item b).Lays Ok lo fun hi found =>
      Row Ok lo found.2 (found.1.flatMap nodes) ∧ lo < found.2 ∧ found.2 ≤ hi ∧ Ok found.2 := by
  unfold listOf
  refine lays_skipBlankLines.bind fun _ m₁ h₁ _ => lays_look fun s hs hlo => ?_
  split
  · refine (lays_expect hc).bind (fun last m₂ h₂ hlast => lays_pure fun hi hhi => ?_) s hs hlo
    obtain ⟨hleft, hne, hright, -, hok⟩ := hlast
    exact ⟨Row.nil (by omega), by simp only; omega, by simp only; omega, hok⟩
  · refine (hi m₁).bind (fun first m₂ h₂ hfirst => ?_) s hs hlo
    refine (moreItems_rows hi b m₂).bind fun others m₃ h₃ hothers => ?_
    refine (lays_expect hc).bind fun last m₄ h₄ hlast => lays_pure fun hi hhi => ?_
    obtain ⟨hleft, hne, hright, -, hok⟩ := hlast
    refine ⟨?_, by simp only; omega, by simp only; omega, hok⟩
    have hrow : Row Ok m₁ m₃ (nodes first ++ others.flatMap nodes) := hfirst.append hothers
    exact hrow.widen h₁ (by simp only; omega)

end Rule

/-! ## The rules over their parts -/

namespace Grammar

open Rule

/-- The node of an expression, as a row. -/
abbrev exprRow (e : Expr) : List Node := [.expr e]

/-- The node of a block, as a row. -/
abbrev blockRow (b : Block) : List Node := [.block b]

/-- The node of a name, as a row. -/
abbrev nameRow (i : Ident) : List Node := [.name i]

section Parts

variable {Ok : Nat → Prop} {lo : Nat} {expr : ExprRule} {block : Rule Block}

theorem name_rows : name.Rows Ok nameRow := by
  intro lo
  refine lays_look fun s hs hlo => ?_
  split
  · next h =>
    refine take_laysAt hs hlo fun mid hmid => lays_pure fun hi hhi => ?_
    exact Row.leaf (between_current hs hlo (by simp [h]) (Nat.le_trans hmid hhi)) rfl
  · exact fail_laysAt hs hlo _ hs.current

/-! ### Literals

They take whatever is in front; the rule that calls them has seen a token there. -/

section Literals

variable {s : State} (hs : s.Laid Ok) (hlo : lo ≤ s.here) (hne : s.current.token ≠ .eof)
include hs hlo hne

theorem integer_laysAt : integer.LaysAt Ok lo (fun hi e => Row Ok lo hi (exprRow e)) s := by
  refine take_laysAt hs hlo fun mid hmid => ?_
  split
  · exact lays_pure fun hi hhi =>
      Row.leaf (between_current hs hlo hne (Nat.le_trans hmid hhi)) rfl
  · exact lays_fail _ hs.current

theorem float_laysAt : float.LaysAt Ok lo (fun hi e => Row Ok lo hi (exprRow e)) s := by
  refine take_laysAt hs hlo fun mid hmid => ?_
  split
  · exact lays_pure fun hi hhi =>
      Row.leaf (between_current hs hlo hne (Nat.le_trans hmid hhi)) rfl
  · exact lays_fail _ hs.current

theorem boolean_laysAt : boolean.LaysAt Ok lo (fun hi e => Row Ok lo hi (exprRow e)) s :=
  take_laysAt hs hlo fun _ hmid => lays_pure fun _ hhi =>
    Row.leaf (between_current hs hlo hne (Nat.le_trans hmid hhi)) rfl

theorem string_laysAt : string.LaysAt Ok lo (fun hi e => Row Ok lo hi (exprRow e)) s :=
  take_laysAt hs hlo fun _ hmid => lays_pure fun _ hhi =>
    Row.leaf (between_current hs hlo hne (Nat.le_trans hmid hhi)) rfl

end Literals

/-! ### Expressions -/

theorem flatMap_exprRow (es : List Expr) : es.flatMap exprRow = es.map Node.expr := by
  induction es with
  | nil => rfl
  | cons e es ih => rw [List.flatMap_cons, ih]; rfl

theorem flatMap_nameRow (names : List Ident) : names.flatMap nameRow = names.map Node.name := by
  induction names with
  | nil => rfl
  | cons i names ih => rw [List.flatMap_cons, ih]; rfl

theorem array_rows (he : ∀ l, (expr l).Rows Ok exprRow) (b : Nat) :
    (array expr b).Rows Ok exprRow := by
  intro lo
  refine (lays_expect (by simp)).bind fun opening m₁ h₁ hopening => ?_
  refine (lays_listOf (by simp) (he _) b).bind fun found m₂ h₂ hfound => ?_
  obtain ⟨hrow, hlt, hle, hok⟩ := hfound
  rw [flatMap_exprRow] at hrow
  exact lays_pure fun hi hhi => Row.opened hopening hrow rfl hok (Nat.le_trans hle hhi)

theorem entry_rows (he : ∀ l, (expr l).Rows Ok exprRow) : (entry expr).Rows Ok Entry.nodes := by
  intro lo
  refine (he _ lo).bind fun key m₁ h₁ hkey => lays_skipBlankLines.bind fun _ m₂ h₂ _ => ?_
  refine (lays_expect (by simp)).bind fun colon m₃ h₃ _ => ?_
  refine (he _ m₃).bind fun value m₄ h₄ hvalue => lays_pure fun hi hhi => ?_
  exact (hkey.widen (Nat.le_refl _) (by omega)).append (hvalue.widen (Nat.le_refl _) hhi)

theorem hash_rows (he : ∀ l, (expr l).Rows Ok exprRow) (b : Nat) :
    (hash expr b).Rows Ok exprRow := by
  intro lo
  refine (lays_expect (by simp)).bind fun opening m₁ h₁ hopening => ?_
  refine (lays_listOf (by simp) (entry_rows he) b).bind fun found m₂ h₂ hfound => ?_
  obtain ⟨hrow, hlt, hle, hok⟩ := hfound
  exact lays_pure fun hi hhi => Row.opened hopening hrow rfl hok (Nat.le_trans hle hhi)

/-- The operator in front of an operand is a token of its own. -/
theorem unary_laysAt (he : ∀ l, (expr l).Rows Ok exprRow) {s : State} (hs : s.Laid Ok)
    (hlo : lo ≤ s.here) (hne : s.current.token ≠ .eof) :
    (unary expr).LaysAt Ok lo (fun hi e => Row Ok lo hi (exprRow e)) s := by
  refine take_laysAt hs hlo fun mid hmid => ?_
  split
  · refine (he _ mid).bind fun operand m₁ h₁ hoperand => lays_pure fun hi hhi => ?_
    have hspan := hoperand.between
    exact Row.opened (between_current hs hlo hne hmid) hoperand.tighten rfl hspan.stop
      (Nat.le_trans hspan.right hhi)
  · exact lays_fail _ hs.current

theorem cond_rows (he : ∀ l, (expr l).Rows Ok exprRow) (hb : block.Rows Ok blockRow) :
    (cond expr block).Rows Ok exprRow := by
  intro lo
  refine (lays_expect (by simp)).bind fun opening m₁ h₁ hopening => ?_
  refine (he _ m₁).bind fun condition m₂ h₂ hcondition => ?_
  refine (hb m₂).bind fun consequence m₃ h₃ hconsequence => lays_look fun s hs hlo => ?_
  split
  · refine take_laysAt hs hlo fun m₄ h₄ => ?_
    refine (hb m₄).bind fun alternative m₅ h₅ halternative => lays_pure fun hi hhi => ?_
    have hspan := halternative.between
    have hcurrent : s.here ≤ s.current.stop := hs.current.ordered
    -- the two blocks have the word between them
    have hgap : m₃ ≤ m₄ := by omega
    have hrow := (hcondition.append hconsequence).append
      (halternative.tighten.widen hgap (Nat.le_refl _))
    exact Row.opened hopening hrow rfl hspan.stop (Nat.le_trans hspan.right hhi)
  · refine lays_pure (fun hi hhi => ?_) s hs hlo
    have hspan := hconsequence.between
    have hrow := hcondition.append hconsequence.tighten
    exact Row.opened hopening hrow rfl hspan.stop (Nat.le_trans hspan.right hhi)

theorem loop_rows (he : ∀ l, (expr l).Rows Ok exprRow) (hb : block.Rows Ok blockRow) :
    (loop expr block).Rows Ok exprRow := by
  intro lo
  refine (lays_expect (by simp)).bind fun opening m₁ h₁ hopening => ?_
  refine (he _ m₁).bind fun condition m₂ h₂ hcondition => ?_
  refine (hb m₂).bind fun body m₃ h₃ hbody => lays_pure fun hi hhi => ?_
  have hspan := hbody.between
  exact Row.opened hopening (hcondition.append hbody.tighten) rfl hspan.stop
    (Nat.le_trans hspan.right hhi)

theorem func_rows (hb : block.Rows Ok blockRow) (b : Nat) : (func block b).Rows Ok exprRow := by
  intro lo
  refine (lays_expect (by simp)).bind fun opening m₁ h₁ hopening => ?_
  refine (lays_expect (by simp)).bind fun paren m₂ h₂ _ => ?_
  refine (lays_listOf (by simp) name_rows b).bind fun found m₃ h₃ hfound => ?_
  obtain ⟨hrow, hlt, hle, -⟩ := hfound
  refine (hb m₃).bind fun body m₄ h₄ hbody => lays_pure fun hi hhi => ?_
  have hspan := hbody.between
  rw [flatMap_nameRow] at hrow
  exact Row.opened hopening ((hrow.widen h₂ hle).append hbody.tighten) rfl hspan.stop
    (Nat.le_trans hspan.right hhi)

/-- Parentheses stand outside of the node between them. -/
theorem group_rows (he : ∀ l, (expr l).Rows Ok exprRow) : (group expr).Rows Ok exprRow := by
  intro lo s hs hlo
  refine take_laysAt hs hlo fun m₁ h₁ => (he _ m₁).bind fun inner m₂ h₂ hinner => ?_
  refine lays_skipBlankLines.bind fun _ m₃ h₃ _ => ?_
  refine (lays_expect (by simp)).bind fun paren m₄ h₄ _ => lays_pure fun hi hhi => ?_
  have hcurrent : s.here ≤ s.current.stop := hs.current.ordered
  exact hinner.widen (by omega) (by omega)

theorem operand_rows (he : ∀ l, (expr l).Rows Ok exprRow) (hb : block.Rows Ok blockRow) (b : Nat) :
    (operand expr block b).Rows Ok exprRow := by
  intro lo
  refine lays_look fun s hs hlo => ?_
  split
  case h_1 =>
    refine (name_rows lo).bind (fun i m₁ h₁ hi => lays_pure fun hi' hhi => ?_) s hs hlo
    exact (hi.widen (Nat.le_refl _) hhi).replace rfl rfl
  case h_2 h => exact integer_laysAt hs hlo (by simp [h])
  case h_3 h => exact float_laysAt hs hlo (by simp [h])
  case h_4 h | h_5 h => exact boolean_laysAt hs hlo (by simp [h])
  case h_6 h => exact string_laysAt hs hlo (by simp [h])
  case h_7 h | h_8 h => exact unary_laysAt he hs hlo (by simp [h])
  case h_9 => exact array_rows he b lo s hs hlo
  case h_10 => exact hash_rows he b lo s hs hlo
  case h_11 => exact cond_rows he hb lo s hs hlo
  case h_12 => exact loop_rows he hb lo s hs hlo
  case h_13 => exact func_rows hb b lo s hs hlo
  case h_14 => exact group_rows he lo s hs hlo
  case h_15 => exact fail_laysAt hs hlo _ hs.current

/-! ### Behind an expression -/

/-- The rule makes a node of what stands before it and what it reads. -/
def Extends (Ok : Nat → Prop) (left : Expr) (r : Rule Expr) : Prop :=
  ∀ lo mid, Row Ok lo mid (exprRow left) → r.Lays Ok mid fun hi e => Row Ok lo hi (exprRow e)

theorem call_extends (he : ∀ l, (expr l).Rows Ok exprRow) (b : Nat) (callee : Expr) :
    Extends Ok callee (call expr b callee) := by
  intro lo mid hcallee
  refine (lays_expect (by simp)).bind fun paren m₁ h₁ _ => ?_
  refine (lays_listOf (by simp) (he _) b).bind fun found m₂ h₂ hfound => ?_
  obtain ⟨hrow, hlt, hle, hok⟩ := hfound
  rw [flatMap_exprRow] at hrow
  exact lays_pure fun hi hhi => Row.extended hcallee (hrow.widen h₁ (Nat.le_refl _)) rfl rfl hok
    (Nat.le_trans hle hhi)

theorem index_extends (he : ∀ l, (expr l).Rows Ok exprRow) (target : Expr) :
    Extends Ok target (index expr target) := by
  intro lo mid htarget
  refine (lays_expect (by simp)).bind fun bracket m₁ h₁ _ => ?_
  refine (he _ m₁).bind fun position m₂ h₂ hposition => ?_
  refine lays_skipBlankLines.bind fun _ m₃ h₃ _ => ?_
  refine (lays_expect (by simp)).bind fun closing m₄ h₄ hclosing => lays_pure fun hi hhi => ?_
  obtain ⟨hleft, hne, hright, -, hok⟩ := hclosing
  exact Row.extended htarget (hposition.widen h₁ (by omega)) rfl rfl hok (by omega)

theorem binary_extends (he : ∀ l, (expr l).Rows Ok exprRow) (left : Expr) :
    Extends Ok left (binary expr left) := by
  intro lo mid hleft s hs hlo
  refine take_laysAt hs hlo fun m₁ h₁ => ?_
  split
  · next op _ =>
    refine (he _ m₁).bind fun right m₂ h₂ hright => lays_pure fun hi hhi => ?_
    have hcurrent : s.here ≤ s.current.stop := hs.current.ordered
    obtain ⟨-, hne, hend, -, -⟩ := hleft.between
    obtain ⟨hstart', hne', hend', -, hok⟩ := hright.between
    -- the operands stand apart, so that the span of both runs from the first to the second
    have hmerge : left.span.merge right.span = ⟨left.span.start, right.span.stop⟩ := by
      have hfirst : left.span.start < left.span.stop := hne
      have hfirst' : left.span.stop ≤ mid := hend
      have hsecond : m₁ ≤ right.span.start := hstart'
      have hsecond' : right.span.start < right.span.stop := hne'
      unfold Span.merge
      rw [Nat.min_eq_left (by omega), Nat.max_eq_right (by omega)]
    exact Row.extended hleft (hright.tighten.widen (by omega) (Nat.le_refl _)) rfl hmerge hok
      (Nat.le_trans hend' hhi)
  · exact lays_fail _ hs.current

theorem continuation_extends (he : ∀ l, (expr l).Rows Ok exprRow) (b : Nat) (left : Expr) :
    Extends Ok left (continuation expr b left) := by
  intro lo mid hleft
  refine lays_look fun s hs hlo => ?_
  split
  · exact call_extends he b left lo mid hleft s hs hlo
  · exact index_extends he left lo mid hleft s hs hlo
  · exact binary_extends he left lo mid hleft s hs hlo

/-! ### Statements -/

/-- The node of a statement, as a row. -/
abbrev stmtRow (a : Stmt) : List Node := [.stmt a]

theorem letStatement_rows (he : ∀ l, (expr l).Rows Ok exprRow) :
    (letStatement expr).Rows Ok stmtRow := by
  intro lo
  refine (lays_expect (by simp)).bind fun opening m₁ h₁ hopening => ?_
  refine (name_rows m₁).bind fun bound m₂ h₂ hbound => ?_
  refine (lays_expect (by simp)).bind fun assign m₃ h₃ _ => ?_
  refine (he _ m₃).bind fun value m₄ h₄ hvalue => ?_
  refine (lays_skipOptional _).bind fun _ m₅ h₅ _ => lays_pure fun hi hhi => ?_
  have hspan := hvalue.between
  have hrow := (hbound.widen (Nat.le_refl _) h₃).append hvalue.tighten
  exact Row.opened hopening hrow rfl hspan.stop (Nat.le_trans hspan.right (by omega))

theorem returnStatement_rows (he : ∀ l, (expr l).Rows Ok exprRow) :
    (returnStatement expr).Rows Ok stmtRow := by
  intro lo
  refine (lays_expect (by simp)).bind fun opening m₁ h₁ hopening => ?_
  refine (he _ m₁).bind fun value m₂ h₂ hvalue => ?_
  refine (lays_skipOptional _).bind fun _ m₃ h₃ _ => lays_pure fun hi hhi => ?_
  have hspan := hvalue.between
  exact Row.opened hopening hvalue.tighten rfl hspan.stop (Nat.le_trans hspan.right (by omega))

/-- The statement stands where its expression does; the semicolon is outside. -/
theorem expressionStatement_rows (he : ∀ l, (expr l).Rows Ok exprRow) :
    (expressionStatement expr).Rows Ok stmtRow := by
  intro lo
  refine (he _ lo).bind fun value m₁ h₁ hvalue => ?_
  refine (lays_skipOptional _).bind fun _ m₂ h₂ _ => lays_pure fun hi hhi => ?_
  have hspan := hvalue.between
  have hrow : Row Ok value.span.start value.span.stop (exprRow value) :=
    hvalue.tighten.tighten_start
  exact hrow.node (n := .stmt (.expr value))
    ⟨hspan.left, hspan.nonempty, Nat.le_trans hspan.right (by omega), hspan.start, hspan.stop⟩
    (Nat.le_refl _) (Nat.le_refl _)

theorem statement_rows (he : ∀ l, (expr l).Rows Ok exprRow) (hb : block.Rows Ok blockRow) :
    (statement expr block).Rows Ok stmtRow := by
  intro lo
  refine lays_look fun s hs hlo => ?_
  split
  · next h =>
    refine take_laysAt hs hlo fun mid hmid => lays_pure fun hi hhi => ?_
    exact Row.leaf (between_current hs hlo (by simp [h]) (Nat.le_trans hmid hhi)) rfl
  · exact letStatement_rows he lo s hs hlo
  · exact returnStatement_rows he lo s hs hlo
  · refine (hb lo).bind (fun body m₁ h₁ hbody => lays_pure fun hi hhi => ?_) s hs hlo
    exact (hbody.widen (Nat.le_refl _) hhi).replace rfl rfl
  · exact expressionStatement_rows he lo s hs hlo

end Parts

/-! ## The recursive rules -/

/-- The rules with budget `b` put what they read in a row. -/
structure RulesLay (Ok : Nat → Prop) (b : Nat) : Prop where
  expression (level : Precedence) : (expression b level).Rows Ok exprRow
  operators (level : Precedence) (left : Expr) : Extends Ok left (operators b level left)
  block : (block b).Rows Ok blockRow
  statements (inBlock : Bool) : (statements b inBlock).Rows Ok fun ss => ss.map .stmt

variable {Ok : Nat → Prop}

/-- A broken statement leaves nothing but a fault with a span of the text. -/
theorem statements_succ_rows {b : Nat} (h : RulesLay Ok b) (inBlock : Bool) :
    (statements (b + 1) inBlock).Rows Ok fun ss => ss.map .stmt := by
  intro lo s hs hlo
  unfold LaysAt statements
  split
  · exact ⟨hs, hlo, Row.nil hlo⟩
  · split
    · have hcurrent : s.here ≤ s.current.stop := hs.current.ordered
      have hstep := hs.stop_le_step
      exact h.statements inBlock lo s.step hs.step (by omega)
    · have hstmt := statement_rows h.expression h.block lo s hs hlo
      unfold LaysAt at hstmt
      split
      · next first t hr =>
        rw [hr] at hstmt
        obtain ⟨ht, hle, hfirst⟩ := hstmt
        have hmore : (do return first :: (← statements b inBlock) : Rule (List Stmt)).Lays Ok t.here
            fun hi ss => Row Ok lo hi (ss.map .stmt) :=
          (h.statements inBlock t.here).bind fun ss mid hmid hrow => lays_pure fun hi hhi =>
            (hfirst.append hrow).widen (Nat.le_refl _) hhi
        exact Reply.Lays.after (hmore t ht (Nat.le_refl _)) hle
      · next e t hr =>
        -- the statements behind the gap still stand at `lo` or behind it
        rw [hr] at hstmt
        obtain ⟨ht, hle, he⟩ := hstmt
        obtain ⟨hu, hle'⟩ := (ht.note he).recover inBlock
        exact h.statements inBlock lo _ hu (Nat.le_trans hle hle')
      · trivial

/-- Whatever the budget is. -/
theorem rules_lay (b : Nat) : RulesLay Ok b := by
  induction b with
  | zero =>
    exact ⟨fun _ _ => lays_starve, fun _ _ _ _ _ => lays_starve, fun _ => lays_starve,
      fun _ _ => lays_starve⟩
  | succ b ih =>
    refine ⟨fun level lo => ?_, fun level left lo mid hleft => ?_, fun lo => ?_,
      statements_succ_rows ih⟩
    · unfold expression
      refine lays_skipBlankLines.bind fun _ m₁ h₁ _ => ?_
      refine (operand_rows ih.expression ih.block b m₁).bind fun left m₂ h₂ hleft => ?_
      exact ih.operators level left lo m₂ (hleft.widen h₁ (Nat.le_refl _))
    · unfold operators
      refine lays_look fun s hs hlo => ?_
      split
      · refine (continuation_extends ih.expression b left lo mid hleft).bind
          (fun wider m₁ h₁ hwider => ?_) s hs hlo
        exact ih.operators level wider lo m₁ hwider
      · exact lays_pure (fun hi hhi => hleft.widen (Nat.le_refl _) hhi) s hs hlo
    · unfold block
      refine (lays_expect (by simp)).bind fun opening m₁ h₁ hopening => ?_
      refine (ih.statements true m₁).bind fun body m₂ h₂ hbody => ?_
      refine (lays_expect (by simp)).bind fun closing m₃ h₃ hclosing => lays_pure fun hi hhi => ?_
      obtain ⟨hleft, hne, hright, -, hok⟩ := hclosing
      exact Row.opened hopening (hbody.widen (Nat.le_refl _) (by omega)) rfl hok (by omega)

end Grammar

/-! ## Whole texts -/

/-- Lexemes that lie in order make a program whose nodes are sound, and faults with spans of the
    text. -/
theorem parseLexemes_sound {Ok : Nat → Prop} {xs : List Lexeme} (hxs : Ordered Ok 0 xs) (h0 : Ok 0) :
    (Node.program (parseLexemes xs).program).AllSound Ok ∧
      ∀ e ∈ (parseLexemes xs).errors, e.span.Sound Ok := by
  have hs : (State.ofLexemes xs).Laid Ok := ⟨hxs, h0, by simp [State.ofLexemes]⟩
  obtain ⟨ss, t, hread, -⟩ := Grammar.readStatements_ok false (State.ofLexemes xs)
  have hlays : (Grammar.readStatements false (State.ofLexemes xs)).Lays Ok (State.ofLexemes xs).here
      fun hi ss => Row Ok (State.ofLexemes xs).here hi (ss.map .stmt) :=
    (Grammar.rules_lay _).statements false _ (State.ofLexemes xs) hs (Nat.le_refl _)
  rw [hread] at hlays
  obtain ⟨ht, hle, hrow⟩ := hlays
  rw [Grammar.parseLexemes_eq hread]
  refine ⟨?_, ht.errors⟩
  have hend := ht.current
  refine Row.root (n := .program _) hrow ⟨?_, hs.current.start, hend.stop⟩ (Nat.le_refl _)
    hend.ordered fun hne => absurd rfl hne
  exact Nat.le_trans hle hend.ordered

/-- In every text, with or without faults, each node of the program has a span between two characters
    of the text, which is empty only for the program itself; the children of a node stand inside its
    span and behind each other; and each fault has a span between two characters of the text. So have
    the places that are listed for the program, which are those of its nodes. -/
theorem parse_placed (source : String) :
    (∀ n, Node.Under (.program (parse source).program) n → n.Sound (IsBoundary source)) ∧
      (∀ x ∈ (parse source).program.places, x.span.Sound (IsBoundary source)) ∧
      ∀ e ∈ (parse source).errors, e.span.Sound (IsBoundary source) := by
  have hstart : source.toList = [] ++ source.toList := rfl
  obtain ⟨hnodes, herrors⟩ :=
    parseLexemes_sound (tokenize_ordered source) (isBoundary_of_append hstart)
  refine ⟨hnodes, fun x hx => ?_, herrors⟩
  obtain ⟨n, hn, rfl⟩ := Program.mem_places_iff.mp hx
  exact (hnodes n hn).span

end Scriptlet
