import Scriptlet.Syntax.Layout

/-!
# `Proofs.Syntax.Normal` — trees up to places and blank lines

Writing a program in its canonical form moves everything in it, and it keeps no more than one blank
line between two statements. The normal form of a tree leaves out what is lost: all spans, and the
blank lines that writing leaves out. The canonical text depends on nothing else, and so does the text
on one line that functions are shown by.

## Contents
- `Tidy`: lists with no two gaps in a row and none at the end. `trimGaps` gives one, and leaves one
  that does not start with a gap as it is.
- `Expr.normal`, `Stmt.normal`, `Block.normal`, `Program.normal`: the normal forms.
- `Expr.layout_normal` and the like, `Program.layout_normal`: the canonical text of a normal form.
- `Expr.render_normal` and the like: its text on one line.
-/

namespace Scriptlet

/-! ## Gaps -/

section Gaps

variable {α β : Type} {isGap : α → Bool}

/-- After every gap stands something that is none. -/
def Tidy (isGap : α → Bool) : List α → Prop
  | [] => True
  | x :: xs => (isGap x = true → ∃ y ys, xs = y :: ys ∧ isGap y = false) ∧ Tidy isGap xs

theorem squeezeGaps_tidy (xs : List α) : Tidy isGap (squeezeGaps isGap xs) := by
  induction xs with
  | nil => trivial
  | cons x xs ih =>
    unfold squeezeGaps
    split
    · trivial
    · next y ys hx h =>
      rw [h] at ih
      split
      · exact ih
      · next hy => exact ⟨fun _ => ⟨y, ys, rfl, by simpa using hy⟩, ih⟩
    · next hx => exact ⟨fun hx' => absurd (hx.symm.trans hx') (by simp), ih⟩

theorem squeezeGaps_of_tidy {xs : List α} (h : Tidy isGap xs) : squeezeGaps isGap xs = xs := by
  induction xs with
  | nil => rfl
  | cons x xs ih =>
    unfold squeezeGaps
    rw [ih h.2]
    split
    -- a gap in a tidy list stands in front of something that is none, so it is neither last nor doubled
    · next hx =>
      obtain ⟨y, ys, hnil, -⟩ := h.1 hx
      cases hnil
    · next y ys hx =>
      obtain ⟨y', ys', heq, hy⟩ := h.1 hx
      cases heq
      rw [if_neg (by simp [hy])]
    · rfl

/-- A list that does not start with a gap. -/
def StartsFull (isGap : α → Bool) (xs : List α) : Prop := ∀ x ∈ xs.head?, isGap x = false

theorem dropWhile_startsFull (xs : List α) : StartsFull isGap (xs.dropWhile isGap) := by
  intro x hx
  have h := List.head?_dropWhile_not isGap xs
  rw [hx] at h
  exact h

theorem dropWhile_of_startsFull {xs : List α} (h : StartsFull isGap xs) :
    xs.dropWhile isGap = xs := by
  cases xs with
  | nil => rfl
  | cons x xs =>
    rw [List.dropWhile_cons, if_neg]
    rw [h x rfl]
    simp

theorem squeezeGaps_startsFull {xs : List α} (h : StartsFull isGap xs) :
    StartsFull isGap (squeezeGaps isGap xs) := by
  cases xs with
  | nil => exact h
  | cons x xs =>
    have hx : isGap x = false := h x rfl
    unfold squeezeGaps
    rw [hx]
    exact h

theorem trimGaps_tidy (xs : List α) : Tidy isGap (trimGaps isGap xs) := squeezeGaps_tidy _

theorem trimGaps_startsFull (xs : List α) : StartsFull isGap (trimGaps isGap xs) :=
  squeezeGaps_startsFull (dropWhile_startsFull xs)

/-- Trimming again changes nothing. -/
theorem trimGaps_trimGaps (xs : List α) :
    trimGaps isGap (trimGaps isGap xs) = trimGaps isGap xs := by
  rw [trimGaps, dropWhile_of_startsFull (trimGaps_startsFull xs),
    squeezeGaps_of_tidy (trimGaps_tidy xs)]

theorem tidy_of_full {xs : List α} (h : ∀ x ∈ xs, isGap x = false) : Tidy isGap xs := by
  induction xs with
  | nil => trivial
  | cons x xs ih =>
    have hx := h x List.mem_cons_self
    exact ⟨fun hgap => absurd (hx.symm.trans hgap) (by simp),
      ih fun y hy => h y (List.mem_cons_of_mem x hy)⟩

/-- Where there are no gaps, trimming changes nothing. -/
theorem trimGaps_of_full {xs : List α} (h : ∀ x ∈ xs, isGap x = false) :
    trimGaps isGap xs = xs := by
  have hstart : StartsFull isGap xs := fun x hx => h x (List.mem_of_mem_head? hx)
  rw [trimGaps, dropWhile_of_startsFull hstart, squeezeGaps_of_tidy (tidy_of_full h)]

theorem mem_of_mem_squeezeGaps {x : α} {xs : List α} (h : x ∈ squeezeGaps isGap xs) : x ∈ xs := by
  induction xs with
  | nil => exact h
  | cons y ys ih =>
    unfold squeezeGaps at h
    split at h
    · cases h
    · next z zs _ hz =>
      rw [hz] at ih
      split at h
      · exact List.mem_cons_of_mem y (ih h)
      · rcases List.mem_cons.mp h with rfl | h
        · exact List.mem_cons_self
        · exact List.mem_cons_of_mem y (ih h)
    · rcases List.mem_cons.mp h with rfl | h
      · exact List.mem_cons_self
      · exact List.mem_cons_of_mem y (ih h)

/-- Trimming adds nothing. -/
theorem mem_of_mem_trimGaps {x : α} {xs : List α} (h : x ∈ trimGaps isGap xs) : x ∈ xs :=
  (List.dropWhile_suffix isGap).subset (mem_of_mem_squeezeGaps h)

theorem squeezeGaps_map {isGap' : β → Bool} {f : α → β} (hf : ∀ x, isGap' (f x) = isGap x)
    (xs : List α) : squeezeGaps isGap' (xs.map f) = (squeezeGaps isGap xs).map f := by
  induction xs with
  | nil => rfl
  | cons x xs ih =>
    rw [List.map_cons]
    unfold squeezeGaps
    rw [ih, hf]
    cases isGap x with
    | false => rfl
    | true =>
      -- a gap stays or goes by what is left in front of it
      cases squeezeGaps isGap xs with
      | nil => rfl
      | cons y ys =>
        show (if isGap' (f y) then f y :: ys.map f else f x :: f y :: ys.map f) =
          (if isGap y then y :: ys else x :: y :: ys).map f
        rw [hf]
        by_cases hy : isGap y
        · rw [if_pos hy, if_pos hy]
          rfl
        · rw [if_neg hy, if_neg hy]
          rfl

/-- Trimming goes by what is a gap alone. -/
theorem trimGaps_map {isGap' : β → Bool} {f : α → β} (hf : ∀ x, isGap' (f x) = isGap x)
    (xs : List α) : trimGaps isGap' (xs.map f) = (trimGaps isGap xs).map f := by
  have hdrop : (xs.map f).dropWhile isGap' = (xs.dropWhile isGap).map f := by
    have hcomp : isGap' ∘ f = isGap := funext hf
    rw [List.dropWhile_map, hcomp]
  unfold trimGaps
  rw [hdrop, squeezeGaps_map hf]

end Gaps

/-! ## Normal forms -/

/-- The span that stands for none. -/
def Span.none : Span := ⟨0, 0⟩

/-- The name without its place. -/
def Ident.normal (name : Ident) : Ident := ⟨name.name, .none⟩

mutual

/-- The expression without its places. -/
def Expr.normal : Expr → Expr
  | .ident name => .ident name.normal
  | .int value spelling _ => .int value spelling .none
  | .float value spelling _ => .float value spelling .none
  | .bool value _ => .bool value .none
  | .str value _ => .str value .none
  | .array elements _ => .array (Expr.normalList elements) .none
  | .hash entries _ => .hash (Entry.normalList entries) .none
  | .unary op operand _ => .unary op operand.normal .none
  | .binary left op right _ => .binary left.normal op right.normal .none
  | .cond condition consequence alternative _ =>
    .cond condition.normal consequence.normal (Block.normalOption alternative) .none
  | .loop condition body _ => .loop condition.normal body.normal .none
  | .func parameters body _ => .func (parameters.map Ident.normal) body.normal .none
  | .call callee arguments _ => .call callee.normal (Expr.normalList arguments) .none
  | .index target position _ => .index target.normal position.normal .none

/-- Expressions without their places. -/
def Expr.normalList : List Expr → List Expr
  | [] => []
  | e :: es => e.normal :: Expr.normalList es

/-- The entry without its places. -/
def Entry.normal : Entry → Entry
  | ⟨key, value⟩ => ⟨key.normal, value.normal⟩

/-- Entries without their places. -/
def Entry.normalList : List Entry → List Entry
  | [] => []
  | p :: ps => p.normal :: Entry.normalList ps

/-- The block without its places, if there is one. -/
def Block.normalOption : Option Block → Option Block
  | none => none
  | some b => some b.normal

/-- The statement without its places. -/
def Stmt.normal : Stmt → Stmt
  | .bind name value _ => .bind name.normal value.normal .none
  | .ret value _ => .ret value.normal .none
  | .expr value => .expr value.normal
  | .block body => .block body.normal
  | .blank _ => .blank .none

/-- Statements without their places. -/
def Stmt.normalList : List Stmt → List Stmt
  | [] => []
  | s :: ss => s.normal :: Stmt.normalList ss

/-- The block without its places and with at most one blank line between two statements. -/
def Block.normal : Block → Block
  | ⟨statements, _⟩ => ⟨trimGaps Stmt.isBlank (Stmt.normalList statements), .none⟩

end

/-- The program without its places and with at most one blank line between two statements. -/
def Program.normal (p : Program) : Program :=
  ⟨trimGaps Stmt.isBlank (Stmt.normalList p.statements), .none⟩

/-! ### Lists, one by one -/

theorem Expr.normalList_eq (es : List Expr) : Expr.normalList es = es.map Expr.normal := by
  induction es with
  | nil => rfl
  | cons e es ih => exact congrArg (e.normal :: ·) ih

theorem Entry.normalList_eq (ps : List Entry) : Entry.normalList ps = ps.map Entry.normal := by
  induction ps with
  | nil => rfl
  | cons p ps ih => exact congrArg (p.normal :: ·) ih

theorem Stmt.normalList_eq (ss : List Stmt) : Stmt.normalList ss = ss.map Stmt.normal := by
  induction ss with
  | nil => rfl
  | cons s ss ih => exact congrArg (s.normal :: ·) ih

theorem Expr.layoutList_eq (indent : Indent) (depth : Nat) (es : List Expr) :
    Expr.layoutList indent depth es = es.map (Expr.layout indent depth) := by
  induction es with
  | nil => rfl
  | cons e es ih => exact congrArg (e.layout indent depth :: ·) ih

theorem Entry.layoutList_eq (indent : Indent) (depth : Nat) (ps : List Entry) :
    Entry.layoutList indent depth ps = ps.map (Entry.layout indent depth) := by
  induction ps with
  | nil => rfl
  | cons p ps ih => exact congrArg (p.layout indent depth :: ·) ih

theorem Stmt.layoutList_eq (indent : Indent) (depth : Nat) (ss : List Stmt) :
    Stmt.layoutList indent depth ss = ss.map (Stmt.layout? indent depth) := by
  induction ss with
  | nil => rfl
  | cons s ss ih => exact congrArg (s.layout? indent depth :: ·) ih

theorem Stmt.isBlank_normal (s : Stmt) : s.normal.isBlank = s.isBlank := by cases s <;> rfl

/-- Blank lines are the statements without a text. -/
theorem Stmt.isNone_layout? (indent : Indent) (depth : Nat) (s : Stmt) :
    (s.layout? indent depth).isNone = s.isBlank := by cases s <;> rfl

/-! ## The canonical text of a normal form -/

section Parens

theorem needsParens_normal (e : Expr) (op : BinaryOp) (onRight : Bool) :
    needsParens e.normal op onRight = needsParens e op onRight := by cases e <;> rfl

theorem isOperation_normal (e : Expr) : isOperation e.normal = isOperation e := by cases e <;> rfl

theorem isBinary_normal (e : Expr) : isBinary e.normal = isBinary e := by cases e <;> rfl

theorem startsWithHash_normal : ∀ e : Expr, startsWithHash e.normal = startsWithHash e
  | .binary left _ _ _ => startsWithHash_normal left
  | .call callee _ _ => startsWithHash_normal callee
  | .index target _ _ => startsWithHash_normal target
  | .ident _ | .int .. | .float .. | .bool .. | .str .. | .array .. | .hash .. | .unary ..
  | .cond .. | .loop .. | .func .. => rfl

theorem renderParameters_normal (parameters : List Ident) :
    renderParameters (parameters.map Ident.normal) = renderParameters parameters := by
  unfold renderParameters
  rw [List.map_map]
  rfl

end Parens

variable {indent : Indent}

/-- The lines of statements after trimming are those of the statements trimmed. -/
theorem trimGaps_layoutList {depth : Nat} {ss : List Stmt}
    (h : Stmt.layoutList indent depth (Stmt.normalList ss) = Stmt.layoutList indent depth ss) :
    trimGaps Option.isNone
        (Stmt.layoutList indent depth (trimGaps Stmt.isBlank (Stmt.normalList ss))) =
      trimGaps Option.isNone (Stmt.layoutList indent depth ss) := by
  rw [← h, Stmt.layoutList_eq, Stmt.layoutList_eq, trimGaps_map (Stmt.isNone_layout? indent depth),
    trimGaps_map (Stmt.isNone_layout? indent depth), trimGaps_trimGaps]

mutual

theorem Expr.layout_normal : ∀ (e : Expr) (depth : Nat),
    e.normal.layout indent depth = e.layout indent depth
  | .ident _, _ | .int .., _ | .float .., _ | .bool .., _ | .str .., _ => rfl
  | .array elements _, depth => by
    unfold Expr.normal Expr.layout
    rw [Expr.layoutList_normal elements depth]
  | .hash entries _, depth => by
    unfold Expr.normal Expr.layout
    rw [Entry.layoutList_normal entries depth]
  | .unary op operand _, depth => by
    unfold Expr.normal Expr.layout
    rw [Expr.layout_normal operand depth, isBinary_normal]
  | .binary left op right _, depth => by
    unfold Expr.normal Expr.layout
    rw [Expr.layout_normal left depth, Expr.layout_normal right depth, needsParens_normal,
      needsParens_normal]
  | .cond condition consequence alternative _, depth => by
    unfold Expr.normal Expr.layout
    rw [Expr.layout_normal condition depth, Block.layout_normal consequence depth,
      Block.layoutElse_normal alternative depth]
  | .loop condition body _, depth => by
    unfold Expr.normal Expr.layout
    rw [Expr.layout_normal condition depth, Block.layout_normal body depth]
  | .func parameters body _, depth => by
    unfold Expr.normal Expr.layout
    rw [Block.layout_normal body depth, renderParameters_normal]
  | .call callee arguments _, depth => by
    unfold Expr.normal Expr.layout
    rw [Expr.layout_normal callee depth, Expr.layoutList_normal arguments depth,
      isOperation_normal]
  | .index target position _, depth => by
    unfold Expr.normal Expr.layout
    rw [Expr.layout_normal target depth, Expr.layout_normal position depth, isOperation_normal]

theorem Expr.layoutList_normal : ∀ (es : List Expr) (depth : Nat),
    Expr.layoutList indent depth (Expr.normalList es) = Expr.layoutList indent depth es
  | [], _ => rfl
  | e :: es, depth => by
    unfold Expr.normalList Expr.layoutList
    rw [Expr.layout_normal e depth, Expr.layoutList_normal es depth]

theorem Entry.layout_normal : ∀ (p : Entry) (depth : Nat),
    p.normal.layout indent depth = p.layout indent depth
  | ⟨key, value⟩, depth => by
    unfold Entry.normal Entry.layout
    rw [Expr.layout_normal key depth, Expr.layout_normal value depth]

theorem Entry.layoutList_normal : ∀ (ps : List Entry) (depth : Nat),
    Entry.layoutList indent depth (Entry.normalList ps) = Entry.layoutList indent depth ps
  | [], _ => rfl
  | p :: ps, depth => by
    unfold Entry.normalList Entry.layoutList
    rw [Entry.layout_normal p depth, Entry.layoutList_normal ps depth]

theorem Block.layoutElse_normal : ∀ (b : Option Block) (depth : Nat),
    Block.layoutElse indent depth (Block.normalOption b) = Block.layoutElse indent depth b
  | none, _ => rfl
  | some b, depth => by
    unfold Block.normalOption Block.layoutElse
    rw [Block.layout_normal b depth]

theorem Stmt.layout?_normal : ∀ (s : Stmt) (depth : Nat),
    s.normal.layout? indent depth = s.layout? indent depth
  | .bind name value _, depth => by
    unfold Stmt.normal Stmt.layout?
    rw [Expr.layout_normal value depth]
    rfl
  | .ret value _, depth => by
    unfold Stmt.normal Stmt.layout?
    rw [Expr.layout_normal value depth]
  | .expr value, depth => by
    unfold Stmt.normal Stmt.layout?
    rw [Expr.layout_normal value depth, startsWithHash_normal]
  | .block body, depth => by
    unfold Stmt.normal Stmt.layout?
    rw [Block.layout_normal body depth]
  | .blank _, _ => rfl

theorem Stmt.layoutList_normal : ∀ (ss : List Stmt) (depth : Nat),
    Stmt.layoutList indent depth (Stmt.normalList ss) = Stmt.layoutList indent depth ss
  | [], _ => rfl
  | s :: ss, depth => by
    unfold Stmt.normalList Stmt.layoutList
    rw [Stmt.layout?_normal s depth, Stmt.layoutList_normal ss depth]

theorem Block.layout_normal : ∀ (b : Block) (depth : Nat),
    b.normal.layout indent depth = b.layout indent depth
  | ⟨statements, _⟩, depth => by
    unfold Block.normal Block.layout
    rw [trimGaps_layoutList (Stmt.layoutList_normal statements (depth + 1))]

end

/-- Programs with the same normal form have the same canonical text. -/
theorem Program.layout_normal (p : Program) : p.normal.layout indent = p.layout indent := by
  unfold Program.layout Program.normal
  rw [trimGaps_layoutList (Stmt.layoutList_normal p.statements 0)]

/-! ## The text of a normal form on one line -/

/-- Blank lines have no text. -/
theorem Stmt.renderList_eq (ss : List Stmt) :
    Stmt.renderList ss = (ss.filter (!Stmt.isBlank ·)).map Stmt.render := by
  induction ss with
  | nil => rfl
  | cons s ss ih =>
    unfold Stmt.renderList
    by_cases hs : s.isBlank <;> simp [hs, ih]

theorem Stmt.renderList_trimGaps (ss : List Stmt) :
    Stmt.renderList (trimGaps Stmt.isBlank ss) = Stmt.renderList ss := by
  rw [Stmt.renderList_eq, filter_trimGaps, ← Stmt.renderList_eq]

mutual

theorem Expr.render_normal : ∀ e : Expr, e.normal.render = e.render
  | .ident _ | .int .. | .float .. | .bool .. | .str .. => rfl
  | .array elements _ => by
    unfold Expr.normal Expr.render
    rw [Expr.renderList_normal elements]
  | .hash entries _ => by
    unfold Expr.normal Expr.render
    rw [Entry.renderList_normal entries]
  | .unary op operand _ => by
    unfold Expr.normal Expr.render
    rw [Expr.render_normal operand]
  | .binary left op right _ => by
    unfold Expr.normal Expr.render
    rw [Expr.render_normal left, Expr.render_normal right]
  | .cond condition consequence alternative _ => by
    unfold Expr.normal Expr.render
    rw [Expr.render_normal condition, Block.render_normal consequence,
      Block.renderElse_normal alternative]
  | .loop condition body _ => by
    unfold Expr.normal Expr.render
    rw [Expr.render_normal condition, Block.render_normal body]
  | .func parameters body _ => by
    unfold Expr.normal Expr.render
    rw [Block.render_normal body, renderParameters_normal]
  | .call callee arguments _ => by
    unfold Expr.normal Expr.render
    rw [Expr.render_normal callee, Expr.renderList_normal arguments]
  | .index target position _ => by
    unfold Expr.normal Expr.render
    rw [Expr.render_normal target, Expr.render_normal position]

theorem Expr.renderList_normal : ∀ es : List Expr,
    Expr.renderList (Expr.normalList es) = Expr.renderList es
  | [] => rfl
  | e :: es => by
    unfold Expr.normalList Expr.renderList
    rw [Expr.render_normal e, Expr.renderList_normal es]

theorem Entry.render_normal : ∀ p : Entry, p.normal.render = p.render
  | ⟨key, value⟩ => by
    unfold Entry.normal Entry.render
    rw [Expr.render_normal key, Expr.render_normal value]

theorem Entry.renderList_normal : ∀ ps : List Entry,
    Entry.renderList (Entry.normalList ps) = Entry.renderList ps
  | [] => rfl
  | p :: ps => by
    unfold Entry.normalList Entry.renderList
    rw [Entry.render_normal p, Entry.renderList_normal ps]

theorem Block.renderElse_normal : ∀ b : Option Block,
    Block.renderElse (Block.normalOption b) = Block.renderElse b
  | none => rfl
  | some b => by
    unfold Block.normalOption Block.renderElse
    rw [Block.render_normal b]

theorem Stmt.render_normal : ∀ s : Stmt, s.normal.render = s.render
  | .bind name value _ => by
    unfold Stmt.normal Stmt.render
    rw [Expr.render_normal value]
    rfl
  | .ret value _ => by
    unfold Stmt.normal Stmt.render
    rw [Expr.render_normal value]
  | .expr value => by
    unfold Stmt.normal Stmt.render
    rw [Expr.render_normal value]
  | .block body => by
    unfold Stmt.normal Stmt.render
    rw [Block.render_normal body]
  | .blank _ => rfl

theorem Stmt.renderList_normal : ∀ ss : List Stmt,
    Stmt.renderList (Stmt.normalList ss) = Stmt.renderList ss
  | [] => rfl
  | s :: ss => by
    unfold Stmt.normalList Stmt.renderList
    rw [Stmt.isBlank_normal, Stmt.render_normal s, Stmt.renderList_normal ss]

theorem Block.render_normal : ∀ b : Block, b.normal.render = b.render
  | ⟨statements, _⟩ => by
    unfold Block.normal Block.render
    rw [Stmt.renderList_trimGaps, Stmt.renderList_normal statements]

end

/-- A function is shown as it is written, wherever its body stands. -/
theorem renderFunction_normal (parameters : List Ident) (body : Block) :
    renderFunction (parameters.map Ident.normal) body.normal = renderFunction parameters body := by
  unfold renderFunction
  rw [renderParameters_normal, Block.render_normal]

end Scriptlet
